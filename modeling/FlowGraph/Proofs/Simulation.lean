import FlowGraph.Proofs.Build

/-!
The graph of a method simulates its instructions. Control moves from instruction to instruction,
along a branch that is taken or not, or onward. Every move either stays inside a block or leads
from the last index of one block to the start of another along the one edge of its kind, and every
edge stands for one such move. A run of any length therefore visits the blocks of a walk from the
entry.
-/
namespace FlowGraph

inductive Way
  | taken
  | notTaken
  | onward
  deriving DecidableEq, Repr

def Way.edgeKind : Way → EdgeKind
  | taken => .trueBranch
  | notTaken => .falseBranch
  | onward => .fallthrough

theorem Way.edgeKind_inj {v w : Way} (h : v.edgeKind = w.edgeKind) : v = w := by
  cases v <;> cases w <;> simp [edgeKind] at h ⊢

/-- Where an instruction at an index leads. A return or throw leads nowhere. -/
inductive Instruction.Leads (x : Instruction) (i : Int) : Way → Int → Prop
  | taken {t : Int} (hkind : x.kind = .conditionalJump) (htarget : x.target = some t) :
      Leads x i .taken t
  | notTaken (hkind : x.kind = .conditionalJump) : Leads x i .notTaken (i + 1)
  | jump {t : Int} (hkind : x.kind = .unconditionalJump) (htarget : x.target = some t) :
      Leads x i .onward t
  | next (hkind : x.kind ∉ [.conditionalJump, .unconditionalJump, .ret, .throw]) :
      Leads x i .onward (i + 1)

def Move (instructions : List Instruction) (i : Int) (w : Way) (j : Int) : Prop :=
  ∃ (p : Nat) (x : Instruction), i = p ∧ instructions[p]? = some x ∧ x.Leads i w j

/-- A run from index zero: the indices it comes to, and the last of them. -/
inductive Run (instructions : List Instruction) : List Int → Int → Prop
  | start : Run instructions [0] 0
  | move {trace : List Int} {i j : Int} {w : Way} (hrun : Run instructions trace i)
      (hmove : Move instructions i w j) : Run instructions (trace ++ [j]) j

namespace Graph

def BlockAt (g : Graph) (i : Int) (b : Block) : Prop :=
  g.containing i = .ok b.id ∧ g.block b.id = .ok b

/-- How a graph accounts for a move: inside a block, or across the one edge between two blocks
that has the kind of the move. -/
inductive Accounts (g : Graph) : Int → Way → Int → Prop
  | inside {i : Int} {b : Block} (hfrom : g.BlockAt i b) (hto : g.BlockAt (i + 1) b)
      (hlast : i ≠ b.lastIndex) (hstart : ∀ c ∈ g.blocks, c.start ≠ i + 1) :
      Accounts g i .onward (i + 1)
  | across {b c : Block} {w : Way} (hfrom : g.BlockAt b.lastIndex b) (hto : g.BlockAt c.start c)
      (hone : (g.edges.map Edge.link).count ⟨b.id, c.id, w.edgeKind⟩ = 1) :
      Accounts g b.lastIndex w c.start

def StandsFor (g : Graph) (instructions : List Instruction) (e : Edge) (i : Int) (w : Way)
    (j : Int) : Prop :=
  Move instructions i w j ∧ w.edgeKind = e.kind ∧
    (∃ b, g.block e.source = .ok b ∧ b.lastIndex = i) ∧
    ∃ c, g.block e.target = .ok c ∧ c.start = j

inductive Walk (g : Graph) : List Int → Int → Prop
  | entry {b : Int} (hentry : g.entry = .ok b) : Walk g [b] b
  | follow {path : List Int} {e : Edge} (hwalk : Walk g path e.source) (he : e ∈ g.edges) :
      Walk g (path ++ [e.target]) e.target

/-- The blocks that a run visits: one each time it comes to the start of a block. -/
def visits (g : Graph) (trace : List Int) : List Int := trace.filterMap g.startingAt?

end Graph

theorem Instruction.Leads.unique {x : Instruction} {i j k : Int} {w : Way} (hj : x.Leads i w j)
    (hk : x.Leads i w k) : j = k := by
  cases hj with
  | taken hkind htarget =>
    cases hk with
    | taken _ htarget' => exact Option.some.inj (htarget.symm.trans htarget')
  | notTaken hkind =>
    cases hk with
    | notTaken _ => rfl
  | jump hkind htarget =>
    cases hk with
    | jump _ htarget' => exact Option.some.inj (htarget.symm.trans htarget')
    | next hkind' => simp [hkind] at hkind'
  | next hkind =>
    cases hk with
    | jump hkind' _ => simp [hkind'] at hkind
    | next _ => rfl

theorem Move.unique {instructions : List Instruction} {i j k : Int} {w : Way}
    (hj : Move instructions i w j) (hk : Move instructions i w k) : j = k := by
  obtain ⟨p, x, hp, hx, hleads⟩ := hj
  obtain ⟨q, y, hq, hy, hleads'⟩ := hk
  obtain rfl : p = q := by omega
  obtain rfl : x = y := Option.some.inj (hx.symm.trans hy)
  exact hleads.unique hleads'

namespace Graph

variable {g : Graph} {b : Block}

/-- What a block demands is where its last instruction leads. -/
theorem mem_demandsOf_iff_leads {p : Nat} {x : Instruction} (hindex : b.lastIndex = p)
    (hx : g.stream.instructions[p]? = some x) {d : Int × EdgeKind} :
    d ∈ g.demandsOf b ↔ ∃ w, x.Leads b.lastIndex w d.1 ∧ w.edgeKind = d.2 := by
  have hstop : b.stop = b.lastIndex + 1 := by
    unfold Block.lastIndex
    omega
  have htarget : x.kind.isJump = true → x.target = some x.goal := Stream.target_eq_goal hx
  rw [mem_demandsOf hindex hx, hstop]
  constructor
  · rintro (⟨hcontrol, rfl | rfl⟩ | ⟨hcontrol, rfl⟩ | ⟨hcontrol, rfl⟩)
    · exact ⟨.taken, .taken (control_eq_branch_iff.mp hcontrol)
        (htarget (isJump_iff_control.mpr (Or.inl hcontrol))), rfl⟩
    · exact ⟨.notTaken, .notTaken (control_eq_branch_iff.mp hcontrol), rfl⟩
    · exact ⟨.onward, .jump (control_eq_jump_iff.mp hcontrol)
        (htarget (isJump_iff_control.mpr (Or.inr hcontrol))), rfl⟩
    · exact ⟨.onward, .next (control_eq_step_iff.mp hcontrol), rfl⟩
  · obtain ⟨j, kind⟩ := d
    rintro ⟨w, hleads, rfl⟩
    cases hleads with
    | taken hkind ht =>
      have hgoal : x.goal = j := by simp [Instruction.goal, ht]
      exact Or.inl ⟨control_eq_branch_iff.mpr hkind, Or.inl (by rw [hgoal]; rfl)⟩
    | notTaken hkind => exact Or.inl ⟨control_eq_branch_iff.mpr hkind, Or.inr rfl⟩
    | jump hkind ht =>
      have hgoal : x.goal = j := by simp [Instruction.goal, ht]
      exact Or.inr (Or.inl ⟨control_eq_jump_iff.mpr hkind, by rw [hgoal]; rfl⟩)
    | next hkind => exact Or.inr (Or.inr ⟨control_eq_step_iff.mpr hkind, rfl⟩)

structure Finished (g : Graph) : Prop where
  wellFormed : g.WellFormed
  upToDate : g.UpToDate
  met : ∀ b ∈ g.blocks, g.Met b
  links_eq : g.edges.map Edge.link = g.blocks.flatMap g.linksOf

namespace Finished

theorem blockAt (h : g.Finished) (hb : b ∈ g.blocks) {i : Int} (hlow : b.start ≤ i)
    (hhigh : i < b.stop) :
    g.BlockAt i b :=
  ⟨containing_eq h.wellFormed.tiling h.upToDate hb hlow hhigh, block_id h.wellFormed.tiling hb⟩

theorem blockAt_start (h : g.Finished) (hb : b ∈ g.blocks) : g.BlockAt b.start b :=
  h.blockAt hb (Int.le_refl _) (h.wellFormed.tiling.start_lt_stop b hb)

/-- No link is contributed twice: a block contributes links of different kinds, and each block
names itself as their source. -/
theorem nodup_links (h : g.Finished) : (g.edges.map Edge.link).Nodup := by
  rw [h.links_eq]
  apply List.pairwise_flatMap.mpr
  constructor
  · intro b hb
    obtain ⟨last, hlast, _⟩ := h.wellFormed.exits b hb
    have hkinds : ((g.linksOf b).map (·.kind)).Nodup := by
      rw [map_kind_linksOf (h.met b hb), map_kind_demandsOf hlast]
      exact nodup_exitKinds _
    exact List.Pairwise.of_map _ (fun l m hne hlm => hne (congrArg Link.kind hlm)) hkinds
  · have hids := List.pairwise_map.mp h.wellFormed.tiling.nodup_ids
    apply hids.imp
    intro b c hne l hl m hm hlm
    rw [← hlm] at hm
    exact hne ((linksOf_source l hl).symm.trans (linksOf_source l hm))

/-- Wherever the last instruction of a block leads, a block starts there and a link leads to
it. -/
theorem exists_link (h : g.Finished) (hb : b ∈ g.blocks) {p : Nat} {x : Instruction}
    (hindex : b.lastIndex = p) (hx : g.stream.instructions[p]? = some x) {w : Way} {j : Int}
    (hleads : x.Leads b.lastIndex w j) :
    ∃ c ∈ g.blocks, c.start = j ∧ ⟨b.id, c.id, w.edgeKind⟩ ∈ g.edges.map Edge.link := by
  have hdemand : (j, w.edgeKind) ∈ g.demandsOf b :=
    (mem_demandsOf_iff_leads hindex hx).mpr ⟨w, hleads, rfl⟩
  obtain ⟨target, htarget⟩ := Option.ne_none_iff_exists'.mp (h.met b hb _ hdemand)
  obtain ⟨c, hc, hstart, rfl⟩ := exists_of_startingAt? h.upToDate htarget
  refine ⟨c, hc, hstart, ?_⟩
  rw [h.links_eq]
  exact List.mem_flatMap.mpr ⟨b, hb, mem_linksOf.mpr ⟨_, hdemand, rfl, rfl, htarget⟩⟩

/-- Every move stays inside its block or crosses one edge. -/
theorem accounts (h : g.Finished) {i j : Int} {w : Way}
    (hmove : Move g.stream.instructions i w j) :
    g.Accounts i w j := by
  obtain ⟨p, x, rfl, hx, hleads⟩ := hmove
  have hlt : p < g.stream.length := Stream.lt_length hx
  obtain ⟨b, hb, hlow, hhigh⟩ :=
    h.wellFormed.tiling.exists_block (i := (p : Int)) (by omega) (by omega)
  have hstop : b.lastIndex = b.stop - 1 := rfl
  by_cases hlast : b.lastIndex = p
  · rw [← hlast] at hleads hlow hhigh ⊢
    obtain ⟨c, hc, rfl, hlink⟩ := h.exists_link hb hlast hx hleads
    have hone := h.nodup_links.count (a := ⟨b.id, c.id, w.edgeKind⟩)
    rw [if_pos hlink] at hone
    exact .across (h.blockAt hb hlow hhigh) (h.blockAt_start hc) hone
  · -- Away from the end of its block an instruction does not jump, so control goes on to the
    -- next.
    have hjump : x.kind.isJump = false :=
      h.wellFormed.jumps_last b hb p x hlow (by omega) (by rw [Stream.get?_natCast, hx])
    cases hleads with
    | taken hkind _ => simp [hkind, Kind.isJump, Kind.jumps] at hjump
    | notTaken hkind => simp [hkind, Kind.isJump, Kind.jumps] at hjump
    | jump hkind _ => simp [hkind, Kind.isJump, Kind.jumps] at hjump
    | next _ =>
      refine .inside (h.blockAt hb hlow hhigh) (h.blockAt hb (by omega) (by omega))
        (Ne.symm hlast) ?_
      intro c hc hstart
      have hclt := h.wellFormed.tiling.start_lt_stop c hc
      obtain rfl : b = c := h.wellFormed.tiling.eq_of_common hb hc (i := (p : Int) + 1)
        ⟨by omega, by omega⟩ ⟨by omega, by omega⟩
      omega

/-- Every edge stands for one move, and for no other. -/
theorem standsFor (h : g.Finished) {e : Edge} (he : e ∈ g.edges) :
    ∃ i w j, g.StandsFor g.stream.instructions e i w j ∧
      ∀ i' w' j', g.StandsFor g.stream.instructions e i' w' j' → i' = i ∧ w' = w ∧ j' = j := by
  have hlink : e.link ∈ g.blocks.flatMap g.linksOf := by
    rw [← h.links_eq]
    exact List.mem_map_of_mem he
  obtain ⟨b, hb, hlink⟩ := List.mem_flatMap.mp hlink
  obtain ⟨⟨j, kind⟩, hdemand, hsource, hkind, htarget⟩ := mem_linksOf.mp hlink
  obtain ⟨p, x, hindex, hx⟩ := exists_last_position h.wellFormed.tiling hb
  obtain ⟨w, hleads, hway⟩ := (mem_demandsOf_iff_leads hindex hx).mp hdemand
  obtain ⟨c, hc, hstart, hid⟩ := exists_of_startingAt? h.upToDate htarget
  have hfrom : g.block e.source = .ok b := by
    rw [show e.source = b.id from hsource]
    exact block_id h.wellFormed.tiling hb
  have hto : g.block e.target = .ok c := by
    rw [show e.target = c.id from hid.symm]
    exact block_id h.wellFormed.tiling hc
  have hmove : Move g.stream.instructions b.lastIndex w j := ⟨p, x, hindex, hx, hleads⟩
  refine ⟨b.lastIndex, w, j, ⟨hmove, hway.trans hkind.symm, ⟨b, hfrom, rfl⟩, c, hto, hstart⟩, ?_⟩
  rintro i' w' j' ⟨hmove', hway', ⟨b', hfrom', rfl⟩, _⟩
  obtain rfl : b = b' := Except.ok.inj (hfrom.symm.trans hfrom')
  obtain rfl : w' = w := Way.edgeKind_inj (hway'.trans (hkind.trans hway.symm))
  exact ⟨rfl, rfl, hmove'.unique hmove⟩

/-- However long a run is, the blocks it visits form a walk from the entry to the block it is
in. -/
theorem walk_of_run (h : g.Finished) {trace : List Int} {i : Int}
    (hrun : Run g.stream.instructions trace i) :
    ∃ b, g.Walk (g.visits trace) b ∧ g.containing i = .ok b := by
  induction hrun with
  | start =>
    obtain ⟨b, hb⟩ : ∃ b, g.startingAt? 0 = some b := by
      have hentry := entry_eq h.wellFormed.tiling h.upToDate
      cases hzero : g.startingAt? 0 with
      | none => simp [entry, hzero] at hentry
      | some b => exact ⟨b, rfl⟩
    obtain ⟨c, hc, hstart, rfl⟩ := exists_of_startingAt? h.upToDate hb
    refine ⟨c.id, ?_, ?_⟩
    · simpa [visits, hb] using Walk.entry (g := g) (by simp [entry, hb])
    · rw [← hstart]
      exact (h.blockAt_start hc).1
  | @move trace i j w _ hmove ih =>
    obtain ⟨b, hwalk, hin⟩ := ih
    cases h.accounts hmove with
    | @inside _ c hfrom hto _ hstart =>
      have hnone : g.startingAt? (i + 1) = none := (startingAt?_eq_none_iff h.upToDate).mpr hstart
      obtain rfl : b = c.id := Except.ok.inj (hin.symm.trans hfrom.1)
      exact ⟨c.id, by simpa [visits, hnone] using hwalk, hto.1⟩
    | @across source target _ hfrom hto hone =>
      -- The run comes to a start, so the visits grow by the block that the edge leads to.
      have hfound := startingAt?_start h.wellFormed.tiling h.upToDate (mem_of_block hto.2)
      obtain rfl : b = source.id := Except.ok.inj (hin.symm.trans hfrom.1)
      have hlink : ⟨source.id, target.id, w.edgeKind⟩ ∈ g.edges.map Edge.link :=
        List.count_pos_iff.mp (by omega)
      obtain ⟨e, he, hlink⟩ := List.mem_map.mp hlink
      obtain ⟨hsource, htarget, _⟩ := Link.mk.inj hlink
      rw [← hsource] at hwalk
      refine ⟨target.id, ?_, hto.1⟩
      simpa [visits, hfound, htarget] using hwalk.follow he

end Finished

end Graph

namespace Stream

variable {s : Stream} {leaders : List Int}

/-- Connecting and freezing change nothing that the links of a block depend on. -/
theorem graphOf_links (s : Stream) (leaders : List Int) :
    (s.graphOf leaders).blocks.flatMap (s.graphOf leaders).linksOf =
      (s.layout leaders).blocks.flatMap (s.layout leaders).linksOf := by
  have hmap : (s.graphOf leaders).blocks.map (s.graphOf leaders).linksOf =
      (s.layout leaders).blocks.map (s.layout leaders).linksOf := by
    apply List.ext_getElem?
    intro p
    simp only [graphOf, Graph.sealed, Graph.wired, List.getElem?_map, Graph.getElem?_grow_blocks,
      Option.map_map]
    rfl
  rw [List.flatMap_def, List.flatMap_def, hmap]

theorem graphOf_finished (h : TargetsInside s.instructions) (hend : EndsInExit s.instructions)
    (hleaders : s.leaders = .ok leaders) : (s.graphOf leaders).Finished := by
  have hmet := (layout_sound h hend hleaders).1
  constructor
  · exact graphOf_wellFormed h hend hleaders
  · exact s.graphOf_upToDate leaders
  · intro c hc
    obtain ⟨grown, hgrown, rfl⟩ := List.mem_map.mp hc
    obtain ⟨p, b, hb, rfl⟩ := Graph.exists_of_mem_wired hgrown
    exact hmet b (List.mem_of_getElem? hb)
  · rw [graphOf_links]
    have hedges := (Graph.layout_bare s leaders).wired_edges
    exact (congrArg (List.map Edge.link) hedges).trans (Link.map_link_number 0 _)

end Stream

/-- The graph that is built accounts for every move of control, each of its edges stands for
exactly one move, and every run visits the blocks of a walk from the entry to the block it is
in. -/
theorem buildGraph_simulates {instructions : List Instruction} {method : Option String}
    {validate : Bool} {g : Graph} (h : buildGraph instructions { method, validate } = .ok g) :
    (∀ i w j, Move instructions i w j → g.Accounts i w j) ∧
    (∀ e ∈ g.edges, ∃ i w j, g.StandsFor instructions e i w j ∧
      ∀ i' w' j', g.StandsFor instructions e i' w' j' → i' = i ∧ w' = w ∧ j' = j) ∧
    ∀ trace i, Run instructions trace i →
      ∃ b, g.Walk (g.visits trace) b ∧ g.containing i = .ok b := by
  obtain ⟨s, leaders, rfl, hinside, hend, hleaders, rfl⟩ := eq_graphOf_of_buildGraph h
  have hfinished := Stream.graphOf_finished hinside hend hleaders
  exact ⟨fun _ _ _ => hfinished.accounts, fun _ => hfinished.standsFor,
    fun _ _ => hfinished.walk_of_run⟩

/-- A run that goes round the loop once and then leaves it. -/
theorem whileLoop_run : Run Stream.whileLoop.instructions [0, 1, 2, 0, 1, 3] 3 := by
  have htest : Move Stream.whileLoop.instructions 0 .onward 1 :=
    ⟨0, _, rfl, rfl, .next (by decide)⟩
  have hstay : Move Stream.whileLoop.instructions 1 .notTaken 2 := ⟨1, _, rfl, rfl, .notTaken rfl⟩
  have hround : Move Stream.whileLoop.instructions 2 .onward 0 := ⟨2, _, rfl, rfl, .jump rfl rfl⟩
  have hleave : Move Stream.whileLoop.instructions 1 .taken 3 := ⟨1, _, rfl, rfl, .taken rfl rfl⟩
  exact ((((Run.start.move htest).move hstay).move hround).move htest).move hleave

theorem whileLoop_simulated : ∃ g, buildGraph Stream.whileLoop.instructions
    { method := none, validate := true } = .ok g ∧ g.Walk [0, 1, 0, 2] 2 := by
  have hbuild : buildGraph Stream.whileLoop.instructions { method := none, validate := true } =
      .ok (Stream.whileLoop.graphOf [0, 2, 3]) := rfl
  obtain ⟨b, hwalk, hin⟩ := (buildGraph_simulates hbuild).2.2 _ _ whileLoop_run
  obtain rfl : 2 = b := Except.ok.inj hin
  exact ⟨_, hbuild, hwalk⟩

end FlowGraph
