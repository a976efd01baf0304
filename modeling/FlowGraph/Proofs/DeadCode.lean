import FlowGraph.Proofs.Simulation

/-!
Dead code. A run visits the blocks of a walk, and a walk stays among the blocks that the search
finds, so a block that is not found holds no instruction that any run comes to. The converse needs
more: a block is entered at its start, and control goes on to its end unless a return or throw
lies in between. Where these only end blocks, the blocks that are found are those whose
instructions some run comes to, all of them.
-/
namespace FlowGraph

def Reached (instructions : List Instruction) (i : Int) : Prop :=
  ∃ trace, Run instructions trace i

theorem Reached.move {instructions : List Instruction} {i j : Int} {w : Way}
    (h : Reached instructions i) (hmove : Move instructions i w j) : Reached instructions j := by
  obtain ⟨trace, hrun⟩ := h
  exact ⟨trace ++ [j], hrun.move hmove⟩

namespace Graph

variable {g : Graph} {b : Block}

def ExitsLast (g : Graph) : Prop := ∀ b ∈ g.blocks, ∀ (i : Int) (x : Instruction),
  b.start ≤ i → i < b.lastIndex → g.stream.get? i = some x → ¬ (x.kind = .ret ∨ x.kind = .throw)

theorem WellFormed.follows_of_edge (hw : g.WellFormed) (hn : g.Numbered) {e : Edge}
    (he : e ∈ g.edges) :
    g.Follows e.source e.target := by
  obtain ⟨b, hb, hlisted⟩ := mem_outgoingAt_iff.mp (hw.id_mem_outgoingAt he)
  exact ⟨b, e.id, e, hb, hlisted, edge_eq_ok_iff.mpr (hn.get?_id he), rfl⟩

theorem WellFormed.source_of_listed (hw : g.WellFormed) (hn : g.Numbered) (hb : b ∈ g.blocks)
    {id : Int} (hid : id ∈ b.outgoing) {e : Edge} (he : g.edge id = .ok e) : e.source = b.id := by
  obtain ⟨f, hf, rfl, hsource⟩ := hw.exists_of_mem_outgoing hb hid
  rw [edge_eq_ok_iff, hn.get?_id hf] at he
  rwa [← Option.some.inj he]

theorem Walk.reach {entry : Int} (hentry : g.entry = .ok entry) (hw : g.WellFormed)
    (hn : g.Numbered) {path : List Int} {c : Int} (h : g.Walk path c) :
    Relation.ReflTransGen g.Follows entry c := by
  induction h with
  | entry hfirst =>
    obtain rfl := Except.ok.inj (hentry.symm.trans hfirst)
    exact .refl
  | follow _ he ih => exact ih.tail (hw.follows_of_edge hn he)

namespace Finished

/-- The block of an index that a run comes to is found from the entry. -/
theorem reach_of_reached (h : g.Finished) (hn : g.Numbered) (hb : b ∈ g.blocks) {i : Int}
    (hlow : b.start ≤ i) (hhigh : i < b.stop) (hreached : Reached g.stream.instructions i) :
    Relation.ReflTransGen g.Follows 0 b.id := by
  obtain ⟨trace, hrun⟩ := hreached
  obtain ⟨c, hwalk, hin⟩ := h.walk_of_run hrun
  obtain rfl : b.id = c := Except.ok.inj ((h.blockAt hb hlow hhigh).1.symm.trans hin)
  exact hwalk.reach (entry_eq h.wellFormed.tiling h.upToDate) h.wellFormed hn

/-- Inside a block without an early exit, control goes on from one index to the next. -/
theorem move_inside (h : g.Finished) (hexits : g.ExitsLast) (hb : b ∈ g.blocks) {i : Int}
    (hlow : b.start ≤ i) (hhigh : i < b.lastIndex) :
    Move g.stream.instructions i .onward (i + 1) := by
  have hbounds := h.wellFormed.tiling.bounds hb
  have hlast : b.lastIndex = b.stop - 1 := rfl
  obtain ⟨p, x, rfl, hx, hget⟩ :=
    Stream.exists_get? (s := g.stream) (j := i) (by omega) (by omega)
  have hjump := h.wellFormed.jumps_last b hb p x hlow hhigh hget
  have hstays := hexits b hb p x hlow hhigh hget
  refine ⟨p, x, rfl, hx, .next (control_eq_step_iff.mp ?_)⟩
  rw [← isTerminal_iff] at hstays
  cases hcontrol : x.kind.control <;> simp_all [isJump_eq_control, isTerminal_eq_control]

/-- A run that comes to the start of such a block can be led on to any index of it. -/
theorem reached_inside (h : g.Finished) (hexits : g.ExitsLast) (hb : b ∈ g.blocks)
    (hstart : Reached g.stream.instructions b.start) {i : Int} (hlow : b.start ≤ i)
    (hhigh : i < b.stop) :
    Reached g.stream.instructions i := by
  have hlast : b.lastIndex = b.stop - 1 := rfl
  obtain ⟨k, rfl⟩ : ∃ k : Nat, i = b.start + k := ⟨(i - b.start).toNat, by omega⟩
  induction k with
  | zero => simpa using hstart
  | succ k ih =>
    have hmove := h.move_inside hexits hb (i := b.start + k) (by omega) (by omega)
    rw [show b.start + ((k + 1 : Nat) : Int) = b.start + k + 1 by omega]
    exact (ih (by omega) (by omega)).move hmove

/-- Where exits end blocks, some run comes to the start of every block that is found. -/
theorem reached_of_reach (h : g.Finished) (hn : g.Numbered) (hexits : g.ExitsLast) {c : Int}
    (hreach : Relation.ReflTransGen g.Follows 0 c) :
    ∃ b, g.block c = .ok b ∧ Reached g.stream.instructions b.start := by
  induction hreach with
  | refl =>
    obtain ⟨b, hb, hstart, _⟩ := exists_entry_block h.wellFormed.tiling
    refine ⟨b, hb, ?_⟩
    rw [hstart]
    exact ⟨_, .start⟩
  | tail _ hfollows ih =>
    obtain ⟨b, hb, hstart⟩ := ih
    obtain ⟨b', id, e, hb', hid, he, rfl⟩ := hfollows
    obtain rfl : b = b' := Except.ok.inj (hb.symm.trans hb')
    have hmem := mem_of_block hb
    have hfull := h.wellFormed.tiling.start_lt_stop b hmem
    obtain ⟨i, w, j, ⟨hmove, _, ⟨d, hd, rfl⟩, c, hc, rfl⟩, _⟩ := h.standsFor (mem_of_edge he)
    rw [h.wellFormed.source_of_listed hn hmem hid he, block_id h.wellFormed.tiling hmem] at hd
    obtain rfl := Except.ok.inj hd
    have hlast : b.lastIndex = b.stop - 1 := rfl
    have hend := h.reached_inside hexits hmem hstart (i := b.lastIndex) (by omega) (by omega)
    exact ⟨c, hc, hend.move hmove⟩

/-- The search finds what edges lead to from the entry, and the report lists all other blocks. -/
theorem dead_code (h : g.Finished) (hn : g.Numbered) : ∃ live dead, g.reachable = .ok live ∧
    g.unreachable = .ok dead ∧ (∃ r, g.validate = .ok r ∧ r.unreachable = dead) ∧
    (∀ d, d ∈ dead ↔ d ∉ live ∧ ∃ b ∈ g.blocks, b.id = d) ∧
    ∀ c, c ∈ live ↔ Relation.ReflTransGen g.Follows 0 c := by
  have hs := silent_of_wellFormed hn h.wellFormed
  obtain ⟨first, hfirst, _⟩ := exists_entry_block h.wellFormed.tiling
  obtain ⟨live, hlive, hexact⟩ := (navigable_of_endpointsSound hs.endpointsSound).reachable_ok
    (entry_eq h.wellFormed.tiling h.upToDate) hfirst
  obtain ⟨violations, hvalidate⟩ := hs.validate_eq
  rw [unreachable_eq hlive] at hvalidate
  refine ⟨live, _, hlive, unreachable_eq hlive, ⟨_, hvalidate, rfl⟩, ?_, hexact⟩
  intro d
  simp [and_comm]

end Finished

end Graph

/-- What the search for reachable blocks says about runs. A block that is called dead, by the
graph or by the report on it, holds no instruction that a run comes to. If returns and throws only
end blocks, a block is found just when some run comes to its first instruction, and then some run
comes to each of them. -/
theorem buildGraph_dead_code {instructions : List Instruction} {method : Option String}
    {validate : Bool} {g : Graph} (h : buildGraph instructions { method, validate } = .ok g) :
    ∃ live dead, g.reachable = .ok live ∧ g.unreachable = .ok dead ∧
      (∃ r, g.validate = .ok r ∧ r.unreachable = dead) ∧
      (∀ d, d ∈ dead ↔ d ∉ live ∧ ∃ b ∈ g.blocks, b.id = d) ∧
      (∀ b ∈ g.blocks, b.id ∈ dead → ∀ i, b.start ≤ i → i < b.stop → ¬ Reached instructions i) ∧
      (g.ExitsLast → ∀ b ∈ g.blocks, (b.id ∈ live ↔ Reached instructions b.start) ∧
        (Reached instructions b.start ↔
          ∀ i, b.start ≤ i → i < b.stop → Reached instructions i)) := by
  obtain ⟨s, leaders, rfl, hinside, hend, hleaders, rfl⟩ := eq_graphOf_of_buildGraph h
  have hfinished := Stream.graphOf_finished hinside hend hleaders
  have hn := s.graphOf_numbered leaders
  obtain ⟨live, dead, hlive, hdead, hreport, hcomplement, hexact⟩ := hfinished.dead_code hn
  refine ⟨live, dead, hlive, hdead, hreport, hcomplement, ?_, ?_⟩
  · intro b hb hmem i hlow hhigh hreached
    apply ((hcomplement b.id).mp hmem).1
    exact (hexact b.id).mpr (hfinished.reach_of_reached hn hb hlow hhigh hreached)
  · intro hexits b hb
    have hfull := hfinished.wellFormed.tiling.start_lt_stop b hb
    refine ⟨⟨?_, ?_⟩, ?_, ?_⟩
    · intro hmem
      obtain ⟨c, hc, hstart⟩ := hfinished.reached_of_reach hn hexits ((hexact b.id).mp hmem)
      rw [Graph.block_id hfinished.wellFormed.tiling hb] at hc
      obtain rfl := Except.ok.inj hc
      exact hstart
    · intro hstart
      exact (hexact b.id).mpr (hfinished.reach_of_reached hn hb (Int.le_refl _) hfull hstart)
    · intro hstart i hlow hhigh
      exact hfinished.reached_inside hexits hb hstart hlow hhigh
    · intro hall
      exact hall b.start (Int.le_refl _) hfull

theorem skipped_exitsLast : (Stream.skipped.graphOf [0, 1, 3]).ExitsLast := by
  have hblocks : (Stream.skipped.graphOf [0, 1, 3]).blocks =
      [⟨0, 0, 1, [0], [], false, true⟩, ⟨1, 1, 3, [], [], true, true⟩,
       ⟨2, 3, 4, [], [0], true, true⟩] := rfl
  intro b hb i x hlow hhigh hx
  rw [hblocks] at hb
  simp only [List.mem_cons, List.not_mem_nil, or_false] at hb
  unfold Block.lastIndex at hhigh
  rcases hb with rfl | rfl | rfl
  · dsimp at hlow hhigh
    omega
  · obtain rfl : i = 1 := by
      dsimp at hlow hhigh
      omega
    obtain rfl : _ = x := Option.some.inj hx
    decide
  · dsimp at hlow hhigh
    omega

/-- Nothing comes to the code that is jumped over, and something comes to the code behind it. -/
theorem skipped_dead_code : ∃ g, buildGraph Stream.skipped.instructions {} = .ok g ∧
    g.unreachable = .ok [1] ∧ g.reachable = .ok [0, 2] ∧ ¬ Reached Stream.skipped.instructions 1 ∧
      ¬ Reached Stream.skipped.instructions 2 ∧ Reached Stream.skipped.instructions 3 := by
  have hbuild : buildGraph Stream.skipped.instructions {} =
      .ok (Stream.skipped.graphOf [0, 1, 3]) := rfl
  obtain ⟨live, dead, hlive, hdead, _, _, hsound, hexact⟩ :=
    @buildGraph_dead_code _ none true _ hbuild
  obtain rfl : [0, 2] = live := Except.ok.inj hlive
  obtain rfl : [1] = dead := Except.ok.inj hdead
  have hjumped := hsound ⟨1, 1, 3, [], [], true, true⟩ (by decide) (by decide)
  have hbehind := hexact skipped_exitsLast ⟨2, 3, 4, [], [0], true, true⟩ (by decide)
  exact ⟨_, hbuild, hdead, hlive, hjumped 1 (by decide) (by decide),
    hjumped 2 (by decide) (by decide), hbehind.1.mp (by decide)⟩

end FlowGraph
