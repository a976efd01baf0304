import FlowGraph.Proofs.Simulation

/-!
Exits of a method. A block is an exit just when its last instruction is a return or throw, and
these are the blocks that no edge leaves. But blocks are cut at leaders, and a return makes no
leader of the index after it: a return with further instructions behind it ends its block only if
something jumps to the first of them, and is otherwise buried in a block that goes on.
-/
namespace FlowGraph

/-- An index ends its block just when it ends the stream or another block starts after it. -/
theorem Tiling.lastIndex_eq_iff {blocks : List Block} {length : Nat} (h : Tiling blocks length)
    {b : Block} (hb : b ∈ blocks) {i : Int} (hlow : b.start ≤ i) (hhigh : i < b.stop) :
    b.lastIndex = i ↔ i + 1 = length ∨ ∃ c ∈ blocks, c.start = i + 1 := by
  have hbounds := h.bounds hb
  have hlast : b.lastIndex = b.stop - 1 := rfl
  constructor
  · intro heq
    by_cases hend : i + 1 = length
    · exact .inl hend
    · obtain ⟨c, hc, hstart⟩ := h.exists_next hb (by omega)
      exact .inr ⟨c, hc, by omega⟩
  · rintro (hend | ⟨c, hc, hstart⟩)
    · omega
    · have hfull := h.start_lt_stop c hc
      by_cases hin : i + 1 < b.stop
      · obtain rfl : b = c :=
          h.eq_of_common hb hc (i := i + 1) ⟨by omega, by omega⟩ ⟨by omega, by omega⟩
        omega
      · omega

theorem exitKinds_eq_nil_iff {k : Kind} : k.control.exitKinds = [] ↔ k = .ret ∨ k = .throw := by
  cases k <;> decide

namespace Graph

variable {g : Graph} {b : Block}

theorem edgesOf_eq_nil_of_block {c : Int} (hb : g.block c = .ok b) :
    g.edgesOf .outgoing c = .ok [] ↔ b.outgoing = [] := by
  simp only [edgesOf, hb, Block.edges, bind, Except.bind]
  cases b.outgoing with
  | nil => exact ⟨fun _ => rfl, fun _ => rfl⟩
  | cons id rest =>
    rw [List.mapM_cons]
    cases g.edge id with
    | error fault => simp [bind, Except.bind]
    | ok e => cases rest.mapM g.edge <;> simp [bind, Except.bind, pure, Except.pure]

def EndsMethod (g : Graph) (b : Block) : Prop :=
  ∃ last, g.terminator b.id = .ok last ∧ (last.kind = .ret ∨ last.kind = .throw)

namespace WellFormed

theorem endsMethod_iff (hw : g.WellFormed) (hb : b ∈ g.blocks) {last : Instruction}
    (hlast : g.stream.get? b.lastIndex = some last) :
    g.EndsMethod b ↔ last.kind = .ret ∨ last.kind = .throw := by
  simp [EndsMethod, terminator_id hw.tiling hb hlast]

theorem mem_exits_iff (hw : g.WellFormed) (hb : b ∈ g.blocks) :
    b.id ∈ g.exits ↔ g.EndsMethod b := by
  obtain ⟨last, hlast, hterminal, _⟩ := hw.exits b hb
  rw [hw.endsMethod_iff hb hlast, ← hterminal]
  constructor
  · intro hmem
    obtain ⟨c, hc, hid⟩ := List.mem_map.mp hmem
    obtain ⟨hc, hmarked⟩ := List.mem_filter.mp hc
    have hfound := block_id hw.tiling hc
    rw [hid, block_id hw.tiling hb] at hfound
    rwa [Except.ok.inj hfound]
  · intro hmarked
    exact List.mem_map.mpr ⟨b, List.mem_filter.mpr ⟨hb, hmarked⟩, rfl⟩

/-- No edge leaves an exit, and an edge leaves every other block. -/
theorem edgesOf_eq_nil_iff (hw : g.WellFormed) (hb : b ∈ g.blocks) :
    g.edgesOf .outgoing b.id = .ok [] ↔ g.EndsMethod b := by
  obtain ⟨last, hlast, _, hkinds⟩ := hw.exits b hb
  have hlength : b.outgoing.length = last.kind.control.exitKinds.length := by
    rw [← hkinds.length_eq, (hw.outgoing b hb).2.length_eq, List.length_map, List.length_map]
  rw [edgesOf_eq_nil_of_block (block_id hw.tiling hb), hw.endsMethod_iff hb hlast,
    ← exitKinds_eq_nil_iff, ← List.length_eq_zero_iff, hlength, List.length_eq_zero_iff]

end WellFormed

end Graph

namespace Stream

variable {s : Stream} {leaders : List Int}

/-- The blocks of the graph that is built start at the leaders and nowhere else. -/
theorem graphOf_start_iff (h : TargetsInside s.instructions) (hs : s.length ≠ 0)
    (hleaders : s.leaders = .ok leaders) {i : Int} :
    (∃ c ∈ (s.graphOf leaders).blocks, c.start = i) ↔ i ∈ leaders := by
  have hplaces : (s.graphOf leaders).blocks.map (fun b => (b.start, b.id)) =
      (s.cut leaders).map fun b => (b.start, b.id) := (s.graphOf_upToDate leaders).symm
  have hstarts : (s.graphOf leaders).blocks.map (·.start) = (s.cut leaders).map (·.start) := by
    have hfirst := congrArg (List.map Prod.fst) hplaces
    rw [List.map_map, List.map_map] at hfirst
    exact hfirst
  rw [← List.mem_map, hstarts, List.mem_map, mem_cut_start]
  constructor
  · rintro (rfl | ⟨hi, _⟩)
    · exact (mem_leaders hs h hleaders).mpr (.inl rfl)
    · exact hi
  · intro hi
    exact .inr ⟨hi, leader_inRange hs h hleaders hi⟩

/-- The index after a return or throw is a leader only for the sake of a jump to it. -/
theorem leader_after_exit_iff (h : TargetsInside s.instructions) (hs : s.length ≠ 0)
    (hleaders : s.leaders = .ok leaders) {p : Nat} {x : Instruction}
    (hx : s.instructions[p]? = some x) (hexit : x.kind = .ret ∨ x.kind = .throw) :
    (p : Int) + 1 ∈ leaders ↔
      ∃ y ∈ s.instructions, y.kind.isJump = true ∧ y.target = some ((p : Int) + 1) := by
  rw [mem_leaders hs h hleaders]
  constructor
  · rintro (hzero | ⟨q, y, hy, hjump, hgoal | ⟨hnext, _⟩⟩)
    · omega
    · exact ⟨y, List.mem_of_getElem? hy, hjump, by rw [target_eq_goal hy hjump, hgoal]⟩
    · obtain rfl : p = q := by omega
      obtain rfl : x = y := Option.some.inj (hx.symm.trans hy)
      rcases hexit with hkind | hkind <;> simp [hkind, Kind.isJump, Kind.jumps] at hjump
  · rintro ⟨y, hy, hjump, htarget⟩
    obtain ⟨q, hq⟩ := List.mem_iff_getElem?.mp hy
    exact .inr ⟨q, y, hq, hjump, .inl (by simp [Instruction.goal, htarget])⟩

end Stream

/-- A return or throw is the last of its block just when it ends the list or something jumps to
the index after it. Its block is then an exit that no edge leaves. In any case the exits are the
blocks that end in a return or throw, and the blocks that no edge leaves. -/
theorem exit_ends_block_iff {instructions : List Instruction} {method : Option String}
    {validate : Bool} {g : Graph} (h : buildGraph instructions { method, validate } = .ok g)
    {p : Nat} {x : Instruction} (hx : instructions[p]? = some x)
    (hexit : x.kind = .ret ∨ x.kind = .throw) :
    (∃ b, g.BlockAt p b ∧
      (b.lastIndex = p ↔ p + 1 = instructions.length ∨
        ∃ y ∈ instructions, y.kind.isJump = true ∧ y.target = some ((p : Int) + 1)) ∧
      (b.lastIndex = p → b.id ∈ g.exits ∧ g.edgesOf .outgoing b.id = .ok [])) ∧
    ∀ c ∈ g.blocks, (c.id ∈ g.exits ↔ g.EndsMethod c) ∧
      (g.edgesOf .outgoing c.id = .ok [] ↔ g.EndsMethod c) := by
  obtain ⟨s, leaders, rfl, hinside, hend, hleaders, rfl⟩ := eq_graphOf_of_buildGraph h
  have hs := Stream.length_ne_zero hend
  have hfinished := Stream.graphOf_finished hinside hend hleaders
  have hw := hfinished.wellFormed
  have hlt : p < s.length := Stream.lt_length hx
  obtain ⟨b, hb, hlow, hhigh⟩ :=
    hw.tiling.exists_block (i := (p : Int)) (by omega) (Int.ofNat_lt.mpr hlt)
  refine ⟨⟨b, hfinished.blockAt hb hlow hhigh, ?_, ?_⟩, ?_⟩
  · rw [hw.tiling.lastIndex_eq_iff hb hlow hhigh, Stream.graphOf_start_iff hinside hs hleaders,
      Stream.leader_after_exit_iff hinside hs hleaders hx hexit]
    apply or_congr _ Iff.rfl
    exact Int.ofNat_inj
  · intro hlast
    have hread : (s.graphOf leaders).stream.get? b.lastIndex = some x := by
      rw [hlast, Stream.get?_natCast]
      exact hx
    have hends := (hw.endsMethod_iff hb hread).mpr hexit
    exact ⟨(hw.mem_exits_iff hb).mpr hends, (hw.edgesOf_eq_nil_iff hb).mpr hends⟩
  · intro c hc
    exact ⟨hw.mem_exits_iff hc, hw.edgesOf_eq_nil_iff hc⟩

/-- The return that is jumped over ends its block, since the jump leads to the index after it. -/
theorem skipped_exit_ends_block : ∃ g b, buildGraph Stream.skipped.instructions {} = .ok g ∧
    g.BlockAt 2 b ∧ b.lastIndex = 2 ∧ b.id ∈ g.exits ∧ g.edgesOf .outgoing b.id = .ok [] := by
  have hbuild : buildGraph Stream.skipped.instructions {} =
      .ok (Stream.skipped.graphOf [0, 1, 3]) := rfl
  obtain ⟨⟨b, hb, hlast, hexit⟩, _⟩ :=
    @exit_ends_block_iff _ none true _ hbuild 2 _ rfl (.inl rfl)
  have htarget : b.lastIndex = 2 := hlast.mpr (.inr ⟨_, List.mem_cons_self, rfl, rfl⟩)
  exact ⟨_, b, hbuild, hb, htarget, hexit htarget⟩

/-- A return with a jump behind it that only leads back to the return. -/
def Stream.buried : Stream where
  instructions :=
    [{ kind := .ret, index := .number 0 },
      { kind := .unconditionalJump, index := .number 1, target := some 0 },
      { kind := .ret, index := .number 2 }]
  contract := rfl

/-- The first return is not the last of its block, which is no exit and has an edge to itself. -/
theorem buried_return_inside : ∃ g b, buildGraph Stream.buried.instructions {} = .ok g ∧
    g.BlockAt 0 b ∧ b.lastIndex = 1 ∧ b.id ∉ g.exits ∧
      g.edgesOf .outgoing b.id = .ok [⟨0, 0, 0, .fallthrough⟩] :=
  ⟨Stream.buried.graphOf [0, 2], ⟨0, 0, 2, [0], [0], false, true⟩, rfl, ⟨rfl, rfl⟩, rfl,
    by decide, rfl⟩

end FlowGraph
