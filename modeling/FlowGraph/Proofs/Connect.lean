import FlowGraph.Proofs.Control
import FlowGraph.Proofs.Growth

/-!
The effect of connecting. The last instruction of a block decides which starts the block demands.
A block whose demands are all starts of blocks contributes one link for each of them, or a mark if
its last instruction leaves the method; a block with an unmet demand contributes nothing and ends
the whole run. Connecting is then growth by what the blocks contribute, in block order.
-/
namespace FlowGraph.Graph

structure Laid (g : Graph) : Prop where
  tiling : Tiling g.blocks g.stream.length
  upToDate : g.UpToDate
  unfrozen : g.Open

theorem Laid.grow {g : Graph} (h : g.Laid) (links : List Link) (marks : List Int) :
    (g.grow links marks).Laid :=
  ⟨grow_tiling links marks h.tiling, grow_upToDate links marks h.upToDate,
    grow_open links marks h.unfrozen⟩

theorem laid_cut (s : Stream) (leaders : List Int) (hs : s.length ≠ 0) :
    (ofBlocks s (s.cut leaders)).Laid := by
  refine ⟨s.cut_tiling leaders hs, ofBlocks_upToDate s _, rfl, ?_⟩
  intro b hb
  rw [cutBlocks_bare _ _ _ b hb]

def demandsOf (g : Graph) (b : Block) : List (Int × EdgeKind) :=
  match g.stream.get? b.lastIndex with
  | some last => last.demands b.stop
  | none => []

def linksOf (g : Graph) (b : Block) : List Link :=
  (g.demandsOf b).filterMap fun d => (g.startingAt? d.1).map fun target => ⟨b.id, target, d.2⟩

def marksOf (g : Graph) (b : Block) : List Int :=
  match g.stream.get? b.lastIndex with
  | some last => if last.kind.isTerminal then [b.id] else []
  | none => []

def Met (g : Graph) (b : Block) : Prop := ∀ d ∈ g.demandsOf b, g.startingAt? d.1 ≠ none

def wired (g : Graph) : Graph := g.grow (g.blocks.flatMap g.linksOf) (g.blocks.flatMap g.marksOf)

variable {g : Graph} {b : Block}

theorem supply_of_met (source : Int) (demands : List (Int × EdgeKind))
    (hmet : ∀ d ∈ demands, g.startingAt? d.1 ≠ none) : g.supply source demands =
      .ok (demands.filterMap fun d => (g.startingAt? d.1).map fun target => (target, d.2)) := by
  induction demands with
  | nil => rfl
  | cons d rest ih =>
    obtain ⟨target, htarget⟩ := Option.ne_none_iff_exists'.mp (hmet d List.mem_cons_self)
    have hrest := ih fun x hx => hmet x (List.mem_cons_of_mem d hx)
    simp [supply, htarget, hrest]

/-- The first unmet demand is the one that is named. -/
theorem supply_of_unmet (source : Int) (met rest : List (Int × EdgeKind)) (d : Int × EdgeKind)
    (hmet : ∀ x ∈ met, g.startingAt? x.1 ≠ none) (hd : g.startingAt? d.1 = none) :
    g.supply source (met ++ d :: rest) = .error (.failure (.danglingTarget source d.1)) := by
  induction met with
  | nil => simp [supply, hd]
  | cons x met ih =>
    obtain ⟨target, htarget⟩ := Option.ne_none_iff_exists'.mp (hmet x List.mem_cons_self)
    have hrest := ih fun y hy => hmet y (List.mem_cons_of_mem x hy)
    simp [supply, htarget, hrest]

theorem startingAt?_lt (ht : Tiling g.blocks g.stream.length) (hu : g.UpToDate) {i target : Int}
    (h : g.startingAt? i = some target) : ∃ q : Nat, target = q ∧ q < g.blocks.length := by
  obtain ⟨c, hc, _, rfl⟩ := exists_of_startingAt? hu h
  obtain ⟨q, hid, hq⟩ := ht.getElem?_id hc
  exact ⟨q, hid, (List.getElem?_eq_some_iff.mp hq).1⟩

theorem addEdges_eq_grow (h : g.Open) {p : Nat} (hp : p < g.blocks.length)
    (arcs : List (Int × EdgeKind))
    (harcs : ∀ a ∈ arcs, ∃ q : Nat, a.1 = q ∧ q < g.blocks.length) :
    g.addEdges p arcs =
      (.ok (Link.number g.edges.length (arcs.map fun a => ⟨p, a.1, a.2⟩)),
        g.grow (arcs.map fun a => ⟨p, a.1, a.2⟩) []) := by
  induction arcs generalizing g with
  | nil => simp [addEdges, Link.number, grow_nil]
  | cons a rest ih =>
    obtain ⟨target, kind⟩ := a
    obtain ⟨q, hq, hlt⟩ := harcs _ List.mem_cons_self
    obtain rfl : target = q := hq
    have hrest := ih (grow_open [⟨p, q, kind⟩] [] h) (by simpa using hp)
      (fun x hx => by simpa using harcs x (List.mem_cons_of_mem _ hx))
    simp only [addEdges, addEdge_eq_grow h hp hlt, hrest, grow_grow]
    simp [Link.number, grow_edges]

theorem exists_last_position (ht : Tiling g.blocks g.stream.length) (hb : b ∈ g.blocks) :
    ∃ (p : Nat) (last : Instruction), b.lastIndex = p ∧
      g.stream.instructions[p]? = some last := by
  have hbounds := ht.bounds hb
  have hlow : 0 ≤ b.lastIndex := by
    unfold Block.lastIndex
    omega
  have hhigh : b.lastIndex < g.stream.length := by
    unfold Block.lastIndex
    omega
  obtain ⟨p, last, hp, hlast, _⟩ := Stream.exists_get? hlow hhigh
  exact ⟨p, last, hp.symm, hlast⟩

theorem Laid.exists_last (h : g.Laid) (hb : b ∈ g.blocks) :
    ∃ last, g.stream.get? b.lastIndex = some last := by
  obtain ⟨p, last, hp, hlast⟩ := exists_last_position h.tiling hb
  exact ⟨last, by rw [hp, Stream.get?_natCast, hlast]⟩

/-- However far the graph has grown, a block ends in the same instruction. -/
theorem Laid.terminator_grow (h : g.Laid) (hb : b ∈ g.blocks) {last : Instruction}
    (hlast : g.stream.get? b.lastIndex = some last) (links : List Link) (marks : List Int) :
    (g.grow links marks).terminator b.id = .ok last := by
  obtain ⟨p, hid, hp⟩ := h.tiling.getElem?_id hb
  have hgrown := getElem?_grow_blocks g links marks p
  rw [hp, Option.map_some] at hgrown
  have hlast' :
      g.stream.get? (Block.gain (Link.number g.edges.length links) marks p b).lastIndex =
        some last := hlast
  rw [hid, terminator, block_natCast hgrown]
  simp [bind, Except.bind, instruction, Stream.instruction, hlast']

theorem demands_of_terminal {last : Instruction} (h : last.kind.isTerminal = true) (stop : Int) :
    last.demands stop = [] := by
  have hleave : last.kind.control = .leave := by simpa [isTerminal_eq_control] using h
  simp [Instruction.demands, hleave]

/-- A block with all demands met adds its links and its mark to what there was. -/
theorem Laid.connectBlock_of_met (h : g.Laid) (hb : b ∈ g.blocks) (hmet : g.Met b)
    (links : List Link) (marks : List Int) :
    (g.grow links marks).connectBlock b =
      (.ok (Link.number (g.grow links marks).edges.length (g.linksOf b)),
        (g.grow links marks).grow (g.linksOf b) (g.marksOf b)) := by
  obtain ⟨last, hlast⟩ := h.exists_last hb
  obtain ⟨p, hid, hp⟩ := h.tiling.getElem?_id hb
  have hlt : p < (g.grow links marks).blocks.length := by
    rw [length_grow_blocks]
    exact (List.getElem?_eq_some_iff.mp hp).1
  have hopen := grow_open links marks h.unfrozen
  have hdemands : g.demandsOf b = last.demands b.stop := by simp [demandsOf, hlast]
  rw [connectBlock_eq (h.terminator_grow hb hlast links marks)]
  cases hterminal : last.kind.isTerminal with
  | true =>
    have hnone : g.linksOf b = [] := by simp [linksOf, hdemands, demands_of_terminal hterminal]
    have hmark : g.marksOf b = [(p : Int)] := by simp [marksOf, hlast, hterminal, hid]
    rw [hid, if_pos rfl, leaveAt, markTerminal_eq_grow hopen hlt, hnone, hmark]
    rfl
  | false =>
    have hmark : g.marksOf b = [] := by simp [marksOf, hlast, hterminal]
    have hsupply := supply_of_met (g := g.grow links marks) b.id (last.demands b.stop) (by
      intro d hd
      exact hmet d (hdemands ▸ hd))
    have harcs : ∀ a ∈ (last.demands b.stop).filterMap
        (fun d => ((g.grow links marks).startingAt? d.1).map fun target => (target, d.2)),
        ∃ q : Nat, a.1 = q ∧ q < (g.grow links marks).blocks.length := by
      intro a ha
      obtain ⟨d, _, hd⟩ := List.mem_filterMap.mp ha
      obtain ⟨target, htarget, rfl⟩ := Option.map_eq_some_iff.mp hd
      have hgrown := h.grow links marks
      exact startingAt?_lt hgrown.tiling hgrown.upToDate htarget
    simp only [Bool.false_eq_true, if_false, follow, hsupply]
    rw [hid, addEdges_eq_grow hopen hlt _ harcs, hmark]
    simp only [linksOf, hdemands, hid, List.map_filterMap, Option.map_map]
    rfl

theorem exists_first_unmet (h : ¬ g.Met b) : ∃ met d rest, g.demandsOf b = met ++ d :: rest ∧
    (∀ x ∈ met, g.startingAt? x.1 ≠ none) ∧ g.startingAt? d.1 = none := by
  obtain ⟨met, d, rest, hsplit, hmet, hd⟩ := exists_first_not h
  exact ⟨met, d, rest, hsplit, hmet, Decidable.not_not.mp hd⟩

/-- A block with an unmet demand changes nothing and names the first such demand. -/
theorem Laid.connectBlock_of_unmet (h : g.Laid) (hb : b ∈ g.blocks) (links : List Link)
    (marks : List Int) {met rest : List (Int × EdgeKind)} {d : Int × EdgeKind}
    (hdemands : g.demandsOf b = met ++ d :: rest) (hmet : ∀ x ∈ met, g.startingAt? x.1 ≠ none)
    (hd : g.startingAt? d.1 = none) : (g.grow links marks).connectBlock b =
      (.error (.failure (.danglingTarget b.id d.1)), g.grow links marks) := by
  obtain ⟨last, hlast⟩ := h.exists_last hb
  have hlast' : last.demands b.stop = met ++ d :: rest := by
    simpa [demandsOf, hlast] using hdemands
  have hterminal : last.kind.isTerminal = false := by
    cases hterminal : last.kind.isTerminal with
    | false => rfl
    | true => simp [demands_of_terminal hterminal] at hlast'
  have hsupply := supply_of_unmet (g := g.grow links marks) b.id met rest d hmet hd
  rw [connectBlock_eq (h.terminator_grow hb hlast links marks)]
  simp only [hterminal, Bool.false_eq_true, if_false, hlast', follow, hsupply]

/-- The run over blocks whose demands are met, from any stage of growth. -/
theorem Laid.connectBlocks_of_met (h : g.Laid) (blocks : List Block)
    (hblocks : ∀ b ∈ blocks, b ∈ g.blocks) (hmet : ∀ b ∈ blocks, g.Met b) (links : List Link)
    (marks : List Int) :
    (g.grow links marks).connectBlocks blocks =
      (.ok (Link.number (g.grow links marks).edges.length (blocks.flatMap g.linksOf)),
        (g.grow links marks).grow (blocks.flatMap g.linksOf) (blocks.flatMap g.marksOf)) := by
  induction blocks generalizing links marks with
  | nil => simp [connectBlocks, Link.number, grow_nil]
  | cons b rest ih =>
    have hfirst := h.connectBlock_of_met (hblocks b List.mem_cons_self)
      (hmet b List.mem_cons_self) links marks
    have hrest := ih (fun c hc => hblocks c (List.mem_cons_of_mem b hc))
      (fun c hc => hmet c (List.mem_cons_of_mem b hc)) (links ++ g.linksOf b)
      (marks ++ g.marksOf b)
    rw [← grow_grow] at hrest
    simp only [connectBlocks, hfirst, hrest, List.flatMap_cons, Link.number_append]
    simp only [grow_grow, grow_edges, List.length_append, Link.length_number, Nat.add_assoc,
      List.append_assoc]

/-- The first block with an unmet demand ends the run, and what the blocks before it have added
stays. -/
theorem Laid.connectBlocks_of_unmet (h : g.Laid) (before after : List Block)
    (hbefore : ∀ c ∈ before, c ∈ g.blocks) (hsound : ∀ c ∈ before, g.Met c) (hb : b ∈ g.blocks)
    {met rest : List (Int × EdgeKind)} {d : Int × EdgeKind}
    (hdemands : g.demandsOf b = met ++ d :: rest) (hmet : ∀ x ∈ met, g.startingAt? x.1 ≠ none)
    (hd : g.startingAt? d.1 = none) (links : List Link) (marks : List Int) :
    (g.grow links marks).connectBlocks (before ++ b :: after) =
      (.error (.failure (.danglingTarget b.id d.1)),
        (g.grow links marks).grow (before.flatMap g.linksOf) (before.flatMap g.marksOf)) := by
  induction before generalizing links marks with
  | nil =>
    have hfails := h.connectBlock_of_unmet hb links marks hdemands hmet hd
    simp [connectBlocks, hfails, grow_nil]
  | cons c before ih =>
    have hfirst := h.connectBlock_of_met (hbefore c List.mem_cons_self)
      (hsound c List.mem_cons_self) links marks
    have hrest := ih (fun x hx => hbefore x (List.mem_cons_of_mem c hx))
      (fun x hx => hsound x (List.mem_cons_of_mem c hx)) (links ++ g.linksOf c)
      (marks ++ g.marksOf c)
    rw [← grow_grow] at hrest
    simp only [List.cons_append, connectBlocks, hfirst, hrest, List.flatMap_cons]
    simp only [grow_grow, List.append_assoc]

/-- A run that ends well has met every demand on its way. -/
theorem Laid.met_of_connectBlocks (h : g.Laid) (blocks : List Block)
    (hblocks : ∀ b ∈ blocks, b ∈ g.blocks) (links : List Link) (marks : List Int)
    {edges : List Edge} {after : Graph}
    (hrun : (g.grow links marks).connectBlocks blocks = (.ok edges, after)) :
    ∀ b ∈ blocks, g.Met b := by
  induction blocks generalizing links marks edges after with
  | nil => simp
  | cons b rest ih =>
    have hb := hblocks b List.mem_cons_self
    by_cases hmet : g.Met b
    · simp only [connectBlocks, h.connectBlock_of_met hb hmet links marks, grow_grow] at hrun
      split at hrun
      case h_1 => simp at hrun
      case h_2 more last hrest =>
        have hlater := ih (fun c hc => hblocks c (List.mem_cons_of_mem b hc)) _ _ hrest
        intro c hc
        rcases List.mem_cons.mp hc with rfl | hc
        · exact hmet
        · exact hlater c hc
    · -- A demand that is not met would have ended the run here.
      obtain ⟨met, d, rest', hdemands, hbefore, hd⟩ := exists_first_unmet hmet
      simp [connectBlocks, h.connectBlock_of_unmet hb links marks hdemands hbefore hd] at hrun

theorem Laid.connect_eq_wired (h : g.Laid) (hmet : ∀ b ∈ g.blocks, g.Met b) : g.connect =
    (.ok (Link.number g.edges.length (g.blocks.flatMap g.linksOf)), g.wired) := by
  have hrun := h.connectBlocks_of_met g.blocks (fun b hb => hb) hmet [] []
  rw [grow_nil] at hrun
  exact hrun

theorem Laid.met_of_connect (h : g.Laid) {edges : List Edge} {after : Graph}
    (hrun : g.connect = (.ok edges, after)) : ∀ b ∈ g.blocks, g.Met b := by
  have hrun' : (g.grow [] []).connectBlocks g.blocks = (.ok edges, after) := by
    rw [grow_nil]
    exact hrun
  exact h.met_of_connectBlocks g.blocks (fun b hb => hb) [] [] hrun'

end FlowGraph.Graph
