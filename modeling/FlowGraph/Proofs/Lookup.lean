import FlowGraph.Proofs.Tiling

/-!
Looking blocks up. In a graph whose blocks tile the stream and whose table of starts is up to
date, an id names the block at that position, the table finds the block that starts at an index
exactly when there is one, and halving the table finds the one block that holds an index.
-/
namespace FlowGraph.Graph

/-- The table of starts agrees with the blocks as they are now. -/
def UpToDate (g : Graph) : Prop := g.table = g.blocks.map fun b => (b.start, b.id)

theorem ofBlocks_upToDate (s : Stream) (blocks : List Block) : (ofBlocks s blocks).UpToDate := rfl

variable {g : Graph} {length : Nat} {b : Block} {i c : Int}

theorem block_natCast {p : Nat} (hp : g.blocks[p]? = some b) : g.block (p : Int) = .ok b := by
  simp [block, Position.get?_natCast, hp]

theorem block_id (ht : Tiling g.blocks length) (hb : b ∈ g.blocks) : g.block b.id = .ok b := by
  obtain ⟨p, hid, hp⟩ := ht.getElem?_id hb
  rw [hid]
  exact block_natCast hp

theorem block_eq_ok_iff : g.block c = .ok b ↔ Position.get? g.blocks c = some b := by
  unfold block
  cases Position.get? g.blocks c <;> simp

theorem mem_of_block (h : g.block c = .ok b) : b ∈ g.blocks :=
  Position.mem_of_get? (block_eq_ok_iff.mp h)

theorem exists_block_iff :
    (∃ b, g.block c = .ok b) ↔ -(g.blocks.length : Int) ≤ c ∧ c < g.blocks.length := by
  simp only [block_eq_ok_iff, Position.exists_get?_iff]

theorem block_of_outside (h : ¬ (-(g.blocks.length : Int) ≤ c ∧ c < g.blocks.length)) :
    g.block c = .error (.ofPosition c .noBlock) := by
  cases hget : Position.get? g.blocks c with
  | none => simp [block, hget]
  | some b => exact absurd (exists_block_iff.mp ⟨b, block_eq_ok_iff.mpr hget⟩) h

theorem startingAt?_eq_none_iff (hu : g.UpToDate) :
    g.startingAt? i = none ↔ ∀ b ∈ g.blocks, b.start ≠ i := by
  rw [UpToDate] at hu
  simp [startingAt?, hu]

/-- An id that the table gives belongs to a block that starts at the index. -/
theorem exists_of_startingAt? (hu : g.UpToDate) (h : g.startingAt? i = some c) :
    ∃ b ∈ g.blocks, b.start = i ∧ b.id = c := by
  obtain ⟨entry, hentry, rfl⟩ := Option.map_eq_some_iff.mp h
  have hmem : entry ∈ g.table := List.mem_reverse.mp (List.mem_of_find?_eq_some hentry)
  have hkey : entry.1 = i := by simpa using List.find?_some hentry
  rw [hu] at hmem
  obtain ⟨b, hb, rfl⟩ := List.mem_map.mp hmem
  exact ⟨b, hb, hkey, rfl⟩

theorem startingAt?_eq_some_iff (ht : Tiling g.blocks length) (hu : g.UpToDate) :
    g.startingAt? i = some c ↔ ∃ b ∈ g.blocks, b.start = i ∧ b.id = c := by
  constructor
  · exact exists_of_startingAt? hu
  · rintro ⟨b, hb, hstart, rfl⟩
    cases hfound : g.startingAt? i with
    | none => exact absurd hstart ((startingAt?_eq_none_iff hu).mp hfound b hb)
    | some d =>
      obtain ⟨b', hb', hstart', rfl⟩ := exists_of_startingAt? hu hfound
      rw [ht.eq_of_start hb' hb (hstart'.trans hstart.symm)]

theorem startingAt?_start (ht : Tiling g.blocks length) (hu : g.UpToDate) (hb : b ∈ g.blocks) :
    g.startingAt? b.start = some b.id :=
  (startingAt?_eq_some_iff ht hu).mpr ⟨b, hb, rfl, rfl⟩

/-- What halving keeps: the answer is neither before `low` nor after `high`. -/
structure Bracket (keys : List Int) (x : Int) (low high : Nat) : Prop where
  low_le_high : low ≤ high
  high_le : high ≤ keys.length
  before : ∀ k, k < low → keys.getD k 0 ≤ x
  after : ∀ k, high ≤ k → k < keys.length → x < keys.getD k 0

theorem upperBound_bracket {keys : List Int} {x : Int} (hsorted : ∀ j k, j ≤ k → k < keys.length →
    keys.getD j 0 ≤ keys.getD k 0) (fuel low high : Nat) (h : Bracket keys x low high)
    (hfuel : high - low ≤ fuel) :
    Bracket keys x (upperBound keys x fuel low high) (upperBound keys x fuel low high) := by
  fun_induction upperBound keys x fuel low high with
  | case1 low high =>
    obtain rfl : low = high := by
      have := h.low_le_high
      omega
    exact h
  | case2 fuel low high hlt middle hless ih =>
    have hhigh := h.high_le
    apply ih _ (by omega)
    refine ⟨by omega, by omega, h.before, ?_⟩
    intro k hk hlength
    have := hsorted middle k hk hlength
    omega
  | case3 fuel low high hlt middle hnot ih =>
    have hhigh := h.high_le
    apply ih _ (by omega)
    refine ⟨by omega, hhigh, ?_, h.after⟩
    intro k hk
    have := hsorted k middle (by omega) (by omega)
    omega
  | case4 fuel low high hnot =>
    obtain rfl : low = high := by
      have := h.low_le_high
      omega
    exact h

theorem starts_getD {blocks : List Block} {p : Nat} (hp : blocks[p]? = some b) :
    (blocks.map (·.start)).getD p 0 = b.start := by
  simp [List.getD_eq_getElem?_getD, hp]

theorem starts_mono (ht : Tiling g.blocks length) (j k : Nat) (hjk : j ≤ k)
    (hk : k < (g.blocks.map (·.start)).length) :
    (g.blocks.map (·.start)).getD j 0 ≤ (g.blocks.map (·.start)).getD k 0 := by
  rw [List.length_map] at hk
  have hfirst : g.blocks[j]? = some g.blocks[j] := List.getElem?_eq_getElem (by omega)
  have hsecond : g.blocks[k]? = some g.blocks[k] := List.getElem?_eq_getElem hk
  rcases Nat.lt_or_eq_of_le hjk with hlt | rfl
  · rw [starts_getD hfirst, starts_getD hsecond]
    have hstop := ht.stop_le_start hfirst hsecond hlt
    have hfull := ht.start_lt_stop _ (List.mem_of_getElem? hfirst)
    omega
  · exact Int.le_refl _

/-- Halving the starts for an index that a block holds leads just past that block. -/
theorem upperBound_starts (ht : Tiling g.blocks length) {p : Nat} (hp : g.blocks[p]? = some b)
    (hlow : b.start ≤ i) (hhigh : i < b.stop) :
    upperBound (g.blocks.map (·.start)) i (g.blocks.map (·.start)).length 0
      (g.blocks.map (·.start)).length = p + 1 := by
  have hbracket := upperBound_bracket (x := i) (starts_mono ht) (g.blocks.map (·.start)).length 0
    (g.blocks.map (·.start)).length
    ⟨Nat.zero_le _, Nat.le_refl _, by omega, by omega⟩ (Nat.sub_le _ _)
  generalize upperBound (g.blocks.map (·.start)) i (g.blocks.map (·.start)).length 0
    (g.blocks.map (·.start)).length = place at hbracket
  have hplace := hbracket.high_le
  have hlength : p < g.blocks.length := (List.getElem?_eq_some_iff.mp hp).1
  rw [List.length_map] at hplace
  -- A place too low would put the start of the block after `i`, one too high the next start
  -- before it.
  rcases Nat.lt_trichotomy place (p + 1) with hless | heq | hmore
  · have hafter := hbracket.after p (by omega) (by rwa [List.length_map])
    rw [starts_getD hp] at hafter
    omega
  · exact heq
  · have hnext : g.blocks[p + 1]? = some g.blocks[p + 1] := List.getElem?_eq_getElem (by omega)
    have hbefore := hbracket.before (p + 1) hmore
    rw [starts_getD hnext, ht.next_start p b _ hp hnext] at hbefore
    omega

/-- The block that holds an index is the one that is found for it. -/
theorem containing_eq (ht : Tiling g.blocks g.stream.length) (hu : g.UpToDate) (hb : b ∈ g.blocks)
    (hlow : b.start ≤ i) (hhigh : i < b.stop) : g.containing i = .ok b.id := by
  obtain ⟨p, _, hp⟩ := ht.getElem?_id hb
  have hbounds := ht.bounds hb
  have hrange : g.stream.inRange i = true := Stream.inRange_iff.mpr ⟨by omega, by omega⟩
  have hkeys : g.table.map (·.1) = g.blocks.map (·.start) := by
    rw [hu, List.map_map]
    rfl
  have hplace := upperBound_starts ht hp hlow hhigh
  have hblock : g.block (((p + 1 : Nat) : Int) - 1) = .ok b := by
    rw [show ((p + 1 : Nat) : Int) - 1 = (p : Int) by omega]
    exact block_natCast hp
  simp only [containing, hrange, if_true, hkeys, hplace, hblock]
  rfl

end FlowGraph.Graph
