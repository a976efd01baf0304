import FlowGraph.Proofs.Build
import FlowGraph.Proofs.Verdict

/-!
Edges drawn after the fact. In a graph that passes validation every block lists as many edges as
its last instruction calls for. Drawing takes nothing away, so there is no room for one edge more:
whatever is added, whether or not it fails halfway, the graph does not pass again. A build into
which edges are injected therefore fails, keeps no graph, and leaves the rejected graph unfrozen.
-/
namespace FlowGraph

namespace Graph.Extends

variable {g after : Graph}

/-- A block that is found in order before and after lists the same edges. -/
theorem outgoing_eq (h : g.Extends after) (hs : g.Silent) (hs' : after.Silent) {b c : Block}
    (hb : b ∈ g.blocks) (hc : c ∈ after.blocks) (hext : b.Extends c) :
    c.outgoing = b.outgoing := by
  obtain ⟨last, hlast, _, hkinds⟩ := hs.exits hb
  obtain ⟨last', hlast', _, hkinds'⟩ := hs'.exits hc
  have hindex : c.lastIndex = b.lastIndex := by simp only [Block.lastIndex, hext.stop_eq]
  rw [hindex, h.stream_eq] at hlast'
  obtain rfl : last = last' := Option.some.inj (hlast.symm.trans hlast')
  have hlength : b.outgoing.length = c.outgoing.length := by
    simpa using (hkinds.trans hkinds'.symm).length_eq
  exact (hext.outgoing.eq_of_length hlength).symm

/-- If the graph is in order before and after, its edges have the ids of edges there were
before. -/
theorem id_lt (h : g.Extends after) (hs : g.Silent) (hs' : after.Silent) {e : Edge}
    (he : e ∈ after.edges) :
    e.id < g.edges.length := by
  obtain ⟨c, hsource, hlisted⟩ := mem_outgoingAt_iff.mp (hs'.edges e he).2
  have hc := mem_of_block hsource
  obtain ⟨p, hp⟩ := List.mem_iff_getElem?.mp hc
  obtain ⟨b, hb, hext⟩ := h.exists_old hp
  have hmem := List.mem_of_getElem? hb
  rw [h.outgoing_eq hs hs' hmem hc hext] at hlisted
  have hstray := strayEdges_eq_nil_iff.mp (hs.lists b hmem).1
  exact (hasEdge_iff.mp (hstray e.id hlisted).1).2

/-- A graph that passed is still reported on. -/
theorem validate_ok (h : g.Extends after) (hs : g.Silent) (hreport : ∃ r, g.validate = .ok r) :
    ∃ r, after.validate = .ok r := by
  obtain ⟨hlegible, hsearch⟩ := validate_ok_iff.mp hreport
  obtain ⟨c, b, hentry, hb⟩ := hsearch hs.entry hs.endpointsSound
  rw [validate_ok_iff, h.stream_eq, h.legible_iff]
  refine ⟨hlegible, fun _ _ => ?_⟩
  have hplace := exists_block_iff.mp ⟨b, hb⟩
  rw [← h.length_eq] at hplace
  obtain ⟨d, hd⟩ := exists_block_iff.mpr hplace
  refine ⟨c, d, ?_, hd⟩
  rw [← hentry]
  simp only [entry, startingAt?, h.table_eq]

theorem isOpen (h : g.Extends after) (hopen : g.Open) : after.Open := by
  refine ⟨h.frozen_eq.trans hopen.1, ?_⟩
  have hsame : ∀ b c : Block, b.Extends c → (c.frozen = false ↔ b.frozen = false) :=
    fun b c hext => by rw [hext.frozen_eq]
  exact (h.forall_iff hsame).mpr hopen.2

end Graph.Extends

def Link.edit (l : Link) : Edit := .addEdge l.source l.target l.kind

/-- No drawing that adds an edge to a graph that passes leaves a graph that passes. -/
theorem Edit.validate_run {g : Graph} {edits : List Edit} (hopen : g.frozen = false)
    (hpassed : ∃ r, g.validate = .ok r ∧ r.passed = true) (hdraws : ∀ e ∈ edits, e.draws = true)
    {l : Link} (hadd : l.edit ∈ edits) :
    ∃ r, (run g edits).validate = .ok r ∧ r.passed = false := by
  obtain ⟨before, hbefore, hpass⟩ := hpassed
  have hext : g.Extends (run g edits) := run_extends hdraws
  have hs : g.Silent := (Graph.passed_iff_silent hbefore).mp hpass
  obtain ⟨r, hr⟩ := hext.validate_ok hs ⟨before, hbefore⟩
  refine ⟨r, hr, ?_⟩
  obtain ⟨e, he, hnew⟩ := exists_drawn hdraws hopen hadd
  rw [Bool.eq_false_iff]
  intro hpass'
  have hold := hext.id_lt hs ((Graph.passed_iff_silent hr).mp hpass') he
  omega

def Link.arc (l : Link) : Arc := ⟨l.source, l.target, l.kind.name⟩

def Link.Astray (count : Nat) (l : Link) (fault : Fault) : Prop :=
  ∃ c, (c = l.source ∨ c = l.target) ∧ ¬ (-(count : Int) ≤ c ∧ c < count) ∧
    fault = .ofPosition c .noBlock

def BuildOptions.injecting (method : Option String) (links : List Link) : BuildOptions :=
  { method, validate := true, extra := links.map Link.arc }

theorem EdgeKind.ofName?_name (k : EdgeKind) : ofName? k.name = some k := by
  cases k <;> decide

namespace Graph

variable {g after : Graph} {fault : Fault}

/-- An open graph fails to list an edge only where there is no block. -/
theorem updateBlock_append_error (hopen : g.Open) {c edge : Int} {side : Side}
    (h : g.updateBlock c (Block.append side edge) = .error fault) :
    ¬ (-(g.blocks.length : Int) ≤ c ∧ c < g.blocks.length) ∧ fault = .ofPosition c .noBlock := by
  unfold updateBlock at h
  split at h
  · rename_i hnone
    refine ⟨?_, (Except.error.inj h).symm⟩
    intro hplace
    obtain ⟨b, hb⟩ := exists_block_iff.mpr hplace
    rw [block_eq_ok_iff, Position.get?, hnone] at hb
    cases hb
  · rename_i p hp
    split at h
    · rename_i hnone
      have := (Position.resolve?_eq_some_iff.mp hp).1
      have := List.getElem?_eq_none_iff.mp hnone
      omega
    · rename_i b hb
      simp [Block.append, hopen.2 b (List.mem_of_getElem? hb)] at h

theorem addEdge_error (hopen : g.Open) {l : Link}
    (h : g.addEdge l.source l.target l.kind = (.error fault, after)) :
    l.Astray g.blocks.length fault := by
  have hadded := addEdge_added hopen.1 l.source l.target l.kind
  rw [h] at hadded
  cases hadded with
  | recorded hsource =>
    have hastray := updateBlock_append_error ((record_extends g _).isOpen hopen) hsource
    exact ⟨l.source, .inl rfl, hastray⟩
  | left hsource htarget =>
    have hext := (record_extends g _).trans (append_extends hsource)
    have hastray := updateBlock_append_error (hext.isOpen hopen) htarget
    rw [hext.length_eq] at hastray
    exact ⟨l.target, .inr rfl, hastray⟩

/-- Injected links are drawn one by one, up to the first with an end that is missing. -/
theorem addArcs_links (hopen : g.Open) (links : List Link) :
    g.addArcs (links.map Link.arc) = (.ok (), Edit.run g (links.map Link.edit)) ∨
    ∃ l ∈ links, ∃ fault after, l.Astray g.blocks.length fault ∧ g.Extends after ∧
      g.addArcs (links.map Link.arc) = (.error fault, after) := by
  induction links generalizing g with
  | nil => exact .inl rfl
  | cons l rest ih =>
    rcases hadd : g.addEdge l.source l.target l.kind with ⟨outcome, next⟩
    have hext : g.Extends next := by
      simpa [hadd] using g.addEdge_extends l.source l.target l.kind
    simp only [List.map_cons, Link.arc, addArcs, EdgeKind.ofName?_name, hadd]
    cases outcome with
    | error fault =>
      exact .inr ⟨l, List.mem_cons_self, fault, next, addEdge_error hopen hadd, hext, rfl⟩
    | ok e =>
      rcases ih (hext.isOpen hopen) with hall | ⟨m, hm, fault, after, hastray, hafter, hfails⟩
      · left
        rw [show next = (l.edit.apply g).2 by simp [Link.edit, Edit.apply, hadd]] at hall ⊢
        exact hall
      · right
        rw [hext.length_eq] at hastray
        exact ⟨m, List.mem_cons_of_mem l hm, fault, after, hastray, hext.trans hafter, hfails⟩

end Graph

def Stage.Fails (stage : Stage) (fault : Fault) (g : Graph) : Prop :=
  stage.outcome = .error fault ∧ stage.graph = g

namespace Stage

variable {stage : Stage} {next : Graph → Stage} {g after : Graph} {fault : Fault}

/-- Nothing comes after a failure. -/
theorem Fails.andThen (h : stage.Fails fault g) : (stage.andThen next).Fails fault g := by
  unfold Stage.andThen
  rw [h.1]
  exact h

theorem Yields.andThen_fails (h : stage.Yields g) (hnext : (next g).Fails fault after) :
    (stage.andThen next).Fails fault after := by
  obtain ⟨hok, rfl⟩ := h
  unfold Stage.andThen
  rw [hok]
  exact hnext

end Stage

/-- Why a graph with injected links is rejected: it does not pass, or one of them cannot be
drawn. -/
def Graph.Rejected (g : Graph) (links : List Link) (fault : Fault) : Prop :=
  (∃ r, g.validate = .ok r ∧ r.passed = false ∧ fault = .failure (.invalidGraph r.violations)) ∨
    ∃ l ∈ links, l.Astray g.blocks.length fault

namespace Graph

variable {g : Graph}

theorem validationStage_fails {r : Report} (hr : g.validate = .ok r) (hpassed : r.passed = false)
    (method : Option String) (links : List Link) :
    (g.validationStage (.injecting method links)).Fails
      (.failure (.invalidGraph r.violations)) g := by
  simp only [validationStage, BuildOptions.injecting, if_true, hr]
  exact ⟨by simp [Report.check, hpassed], rfl⟩

/-- A stage that leaves a graph that would pass comes to nothing when links are injected next. -/
theorem injected_fails {stage : Stage} (hstage : stage.Yields g) (hopen : g.Open)
    (hpassed : ∃ r, g.validate = .ok r ∧ r.passed = true) (method : Option String)
    {links : List Link} (hlinks : links ≠ []) :
    ∃ fault rejected,
      ((stage.andThen (extraStage (links.map Link.arc))).andThen
        (validationStage (.injecting method links))).Fails fault rejected ∧
        rejected.Open ∧ rejected.Rejected links fault := by
  rcases addArcs_links hopen links with hall | ⟨l, hl, fault, after, hastray, hext, hfails⟩
  · have hdraws : ∀ e ∈ links.map Link.edit, e.draws = true := by
      intro e he
      obtain ⟨l, _, rfl⟩ := List.mem_map.mp he
      rfl
    obtain ⟨l, hl⟩ := List.exists_mem_of_ne_nil links hlinks
    obtain ⟨r, hr, hfails⟩ := Edit.validate_run hopen.1 hpassed hdraws (List.mem_map_of_mem hl)
    have hdrawn :
        (g.extraStage (links.map Link.arc)).Yields (Edit.run g (links.map Link.edit)) := by
      unfold extraStage
      rw [hall]
      exact ⟨rfl, rfl⟩
    exact ⟨_, _,
      (hstage.andThen hdrawn).andThen_fails (validationStage_fails hr hfails method links),
      (Edit.run_extends hdraws).isOpen hopen, .inl ⟨r, hr, hfails, rfl⟩⟩
  · have hstopped : (g.extraStage (links.map Link.arc)).Fails fault after := by
      unfold extraStage
      rw [hfails]
      exact ⟨rfl, rfl⟩
    refine ⟨fault, after, (hstage.andThen_fails hstopped).andThen, hext.isOpen hopen,
      .inr ⟨l, hl, ?_⟩⟩
    rwa [hext.length_eq]

theorem Laid.complete_injected (h : g.Laid) (hbare : g.Bare)
    (hend : EndsInExit g.stream.instructions) (hmet : ∀ b ∈ g.blocks, g.Met b)
    (hjumps : g.JumpsLast) (method : Option String) {links : List Link} (hlinks : links ≠ []) :
    ∃ fault rejected, (g.complete (.injecting method links)).Fails fault rejected ∧
      rejected.Open ∧ rejected.Rejected links fault := by
  have hwired : g.wired.Laid := h.grow _ _
  have hwell := h.wired_wellFormed hbare hmet hjumps
  obtain ⟨r, hr, hnone⟩ := hwell.validate_ok hbare.wired_numbered hwired.upToDate
  have hpassed : r.passed = true := by simp [Report.passed, hnone]
  have hstage := (terminatorStage_yields hend).andThen (h.connectStage_yields hmet)
  obtain ⟨fault, rejected, hfails, hrest⟩ :=
    injected_fails hstage hwired.unfrozen ⟨r, hr, hpassed⟩ method hlinks
  exact ⟨fault, rejected, hfails.andThen, hrest⟩

end Graph

/-- A build that would go well comes to nothing when links are injected. -/
theorem Stream.build_injected {s : Stream} (h : TargetsInside s.instructions)
    (hend : EndsInExit s.instructions) (method : Option String) {links : List Link}
    (hlinks : links ≠ []) :
    ∃ fault rejected, (s.build (.injecting method links)).outcome = .error fault ∧
      (s.build (.injecting method links)).graph = some rejected ∧
        rejected.Open ∧ rejected.Rejected links fault := by
  have hs := length_ne_zero hend
  have hleaders := leaders_eq hs h
  obtain ⟨hmet, hjumps⟩ := layout_sound h hend hleaders
  obtain ⟨fault, rejected, ⟨hfault, hgraph⟩, hrest⟩ := (Graph.laid_cut s _ hs).complete_injected
    (Graph.layout_bare s _) hend hmet hjumps method hlinks
  refine ⟨fault, rejected, ?_, ?_, hrest⟩
  · simp only [build, hleaders, partition_eq s _ hs, hfault]
    rfl
  · simp only [build, hleaders, partition_eq s _ hs, hgraph]

/-- A builder that has nothing to publish: it keeps no graph, fails again in the same way when it
is asked again, and leaves a graph behind of which nothing is frozen. -/
structure Builder.Withholds (b : Builder) (fault : Fault) (rejected : Graph) : Prop where
  outcome : b.build.1 = .error fault
  kept : b.build.2.kept = none
  again : b.build.2.build.1 = .error fault
  graph : b.build.2.record.bind (·.graph) = some rejected
  unfrozen : rejected.Open

theorem Builder.withholds_of_error {b : Builder} (hkept : b.kept = none) {fault : Fault}
    {rejected : Graph} (houtcome : (b.stream.build b.options).outcome = .error fault)
    (hgraph : (b.stream.build b.options).graph = some rejected) (hopen : rejected.Open) :
    b.Withholds fault rejected := by
  have hbuild : b.build =
      (.error fault, { b with record := some (b.stream.build b.options), kept := none }) := by
    simp [Builder.build, hkept, houtcome, Except.toOption]
  constructor
  · rw [hbuild]
  · rw [hbuild]
  · rw [hbuild]
    exact houtcome
  · rw [hbuild]
    exact hgraph
  · exact hopen

/-- An edge too many is never let through. Added to any unfrozen graph that passes, by edits of
which any may fail and others may mark blocks, it leaves a graph that does not pass. Injected into
the build of a list of instructions that is accepted, it makes the build fail, and nothing is
published. -/
theorem extra_edge_withheld :
    (∀ (g : Graph) (edits : List Edit), g.frozen = false →
      (∃ r, g.validate = .ok r ∧ r.passed = true) →
      (∀ e ∈ edits, e.draws = true) → (∃ l : Link, l.edit ∈ edits) →
      ∃ r, (Edit.run g edits).validate = .ok r ∧ r.passed = false) ∧
    ∀ (instructions : List Instruction) (method : Option String) (links : List Link),
      (∃ validate g, buildGraph instructions { method, validate } = .ok g) → links ≠ [] →
      ∃ s fault rejected, Stream.ofList instructions = .ok s ∧ rejected.Rejected links fault ∧
        Builder.Withholds { stream := s, options := .injecting method links } fault rejected := by
  constructor
  · rintro g edits hopen hpassed hdraws ⟨l, hadd⟩
    exact Edit.validate_run hopen hpassed hdraws hadd
  · rintro instructions method links ⟨validate, g, hbuild⟩ hlinks
    obtain ⟨s, _, rfl, hinside, hend, _⟩ := eq_graphOf_of_buildGraph hbuild
    obtain ⟨t, ht, hsame⟩ := Stream.ofList_of_keeps s.keepsContract
    rw [← hsame] at hinside hend
    obtain ⟨fault, rejected, houtcome, hgraph, hopen, hrejected⟩ :=
      Stream.build_injected hinside hend method hlinks
    exact ⟨t, fault, rejected, ht, hrejected,
      Builder.withholds_of_error rfl houtcome hgraph hopen⟩

/-- The loop is withheld with a branch doubled, or with an edge from a block that is not there,
and an edge drawn between the marking of two blocks, one of which is not there, is found out. -/
theorem whileLoop_extra_edge_withheld :
    (∃ r, (Edit.run (Graph.loopWith [0, 1]) [.markTerminal 2, .addEdge (-1) 9 .trueBranch,
      .markTerminal 3]).validate = .ok r ∧ r.passed = false) ∧
    (∃ s fault rejected, Stream.ofList Stream.whileLoop.instructions = .ok s ∧
      rejected.Rejected [⟨0, 2, .trueBranch⟩, ⟨7, 0, .fallthrough⟩] fault ∧
      Builder.Withholds
        { stream := s, options := .injecting none [⟨0, 2, .trueBranch⟩, ⟨7, 0, .fallthrough⟩] }
        fault rejected) := by
  constructor
  · exact extra_edge_withheld.1 _ _ rfl ⟨_, rfl, rfl⟩ (by decide)
      ⟨⟨-1, 9, .trueBranch⟩, by decide⟩
  · exact extra_edge_withheld.2 _ none _ ⟨true, _, rfl⟩ (by simp)

end FlowGraph
