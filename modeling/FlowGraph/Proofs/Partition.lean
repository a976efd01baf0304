import FlowGraph.Proofs.Wiring

/-!
The law of partitions. Whatever the list of leaders, the blocks start at zero and at the leaders
that lie within the stream, in ascending order, and tile the stream, so that the instructions of
the blocks one after another are those of the stream. The two ways to look a block up agree with
the ranges of the blocks: the table of starts knows exactly the starts, and halving it leads to
the one block that holds an index.
-/
namespace FlowGraph

namespace Position

theorem clamp_eq {n : Nat} {i : Int} (hlow : 0 ≤ i) (hhigh : i ≤ n) : clamp n 0 n i = i := by
  unfold clamp
  dsimp only
  rw [if_neg (by omega), if_neg (by omega), if_neg (by omega)]

/-- Ends that lie within the list in this order cut out what stands between them. -/
theorem slice_eq {α : Type} {xs : List α} {start stop : Int} (hlow : 0 ≤ start)
    (hle : start ≤ stop) (hhigh : stop ≤ xs.length) :
    slice xs start stop = (xs.take stop.toNat).drop start.toNat := by
  simp only [slice, clamp_eq hlow (by omega : start ≤ xs.length),
    clamp_eq (by omega : 0 ≤ stop) hhigh]

theorem slice_append_drop {α : Type} {xs : List α} {start stop : Int} (hlow : 0 ≤ start)
    (hle : start ≤ stop) (hhigh : stop ≤ xs.length) :
    slice xs start stop ++ xs.drop stop.toNat = xs.drop start.toNat := by
  have hlength : start.toNat ≤ (xs.take stop.toNat).length := by
    rw [List.length_take]
    omega
  rw [slice_eq hlow hle hhigh, ← List.drop_append_of_le_length hlength, List.take_append_drop]

end Position

/-- The slices between the bounds of consecutive blocks are what is left of a list from their
start on. -/
theorem TilesFrom.flatten_slices {α : Type} {xs : List α} {p : Nat} {start : Int}
    {blocks : List Block} (h : TilesFrom xs.length p start blocks) (hstart : 0 ≤ start) :
    (blocks.map fun b => Position.slice xs b.start b.stop).flatten = xs.drop start.toNat := by
  induction blocks generalizing p start with
  | nil =>
    have hend : start = xs.length := h
    simp [hend]
  | cons b rest ih =>
    obtain ⟨_, hfirst, hlt, hrest⟩ := h
    have hhigh := hrest.start_le_stop
    have hlater := ih hrest (by omega)
    rw [List.map_cons, List.flatten_cons, hlater, ← hfirst]
    exact Position.slice_append_drop (by omega) (by omega) hhigh

namespace Graph

variable {g : Graph}

theorem instructions_id (ht : Tiling g.blocks g.stream.length) {b : Block} (hb : b ∈ g.blocks) :
    g.instructions b.id = .ok (g.stream.slice b.start b.stop) := by
  simp only [instructions, block_id ht hb, bind, Except.bind]

/-- The instructions of the blocks of a tiling, one block after another, are those of the
stream. -/
theorem flatten_instructions (ht : Tiling g.blocks g.stream.length) :
    ∃ parts, (g.blocks.map (·.id)).mapM g.instructions = .ok parts ∧
      parts.flatten = g.stream.instructions := by
  refine ⟨g.blocks.map fun b => g.stream.slice b.start b.stop, ?_, ?_⟩
  · rw [List.mapM_map]
    exact mapM_eq_map g.blocks fun b hb => instructions_id ht hb
  · have hslices : (g.blocks.map fun b => g.stream.slice b.start b.stop).flatten =
        g.stream.instructions.drop (0 : Int).toNat :=
      TilesFrom.flatten_slices ht.tilesFrom (Int.le_refl 0)
    rwa [Int.toNat_zero, List.drop_zero] at hslices

theorem containing_of_outside {i : Int} (h : ¬ (0 ≤ i ∧ i < g.stream.length)) :
    g.containing i = .error (.outsideStream i g.stream.length) := by
  have hrange : ¬ g.stream.inRange i = true := fun hin => h (Stream.inRange_iff.mp hin)
  unfold containing
  rw [if_neg hrange]

/-- An index within the stream is found in the one block that holds it. -/
theorem exists_containing (ht : Tiling g.blocks g.stream.length) (hu : g.UpToDate) {i : Int}
    (hlow : 0 ≤ i) (hhigh : i < g.stream.length) : ∃ b ∈ g.blocks, g.containing i = .ok b.id ∧
      ∀ c ∈ g.blocks, c.start ≤ i ∧ i < c.stop ↔ c = b := by
  obtain ⟨b, hb, hheld⟩ := ht.exists_block hlow hhigh
  refine ⟨b, hb, containing_eq ht hu hb hheld.1 hheld.2, ?_⟩
  intro c hc
  constructor
  · intro hother
    exact ht.eq_of_common hc hb hother hheld
  · intro hsame
    rw [hsame]
    exact hheld

structure Partitions (g : Graph) (s : Stream) (leaders : List Int) : Prop where
  stream_eq : g.stream = s
  bare : g.Bare
  starts_strict : (g.blocks.map (·.start)).Pairwise (· < ·)
  mem_starts : ∀ i : Int, i ∈ g.blocks.map (·.start) ↔ i = 0 ∨ i ∈ leaders ∧ 0 ≤ i ∧ i < s.length
  tiling : Tiling g.blocks s.length
  instructions : ∃ parts, (g.blocks.map (·.id)).mapM g.instructions = .ok parts ∧
    parts.flatten = s.instructions
  containing : ∀ i : Int, 0 ≤ i → i < s.length → ∃ b ∈ g.blocks, g.containing i = .ok b.id ∧
    ∀ c ∈ g.blocks, c.start ≤ i ∧ i < c.stop ↔ c = b
  outside : ∀ i : Int, ¬ (0 ≤ i ∧ i < s.length) →
    g.containing i = .error (.outsideStream i s.length)
  startingAt : ∀ i id : Int, g.startingAt? i = some id ↔ ∃ b ∈ g.blocks, b.start = i ∧ b.id = id
  startless : ∀ i : Int, g.startingAt? i = none ↔ ∀ b ∈ g.blocks, b.start ≠ i

end Graph

namespace Stream

variable {s : Stream}

theorem layout_partitions (hs : s.length ≠ 0) (leaders : List Int) :
    (s.layout leaders).Partitions s leaders := by
  have ht : Tiling (s.layout leaders).blocks s.length := s.cut_tiling leaders hs
  have hu : (s.layout leaders).UpToDate := Graph.ofBlocks_upToDate s _
  have hstarts : (s.layout leaders).blocks.map (·.start) = s.blockStarts leaders :=
    cutBlocks_starts _ _ _
  constructor
  · rfl
  · exact Graph.layout_bare s leaders
  · rw [hstarts]
    exact ascendingSet_strict _
  · intro i
    rw [hstarts, mem_blockStarts]
  · exact ht
  · exact Graph.flatten_instructions ht
  · intro i hlow hhigh
    exact Graph.exists_containing ht hu hlow hhigh
  · intro i hout
    exact Graph.containing_of_outside hout
  · intro i id
    exact Graph.startingAt?_eq_some_iff ht hu
  · intro i
    exact Graph.startingAt?_eq_none_iff hu

/-- Of the leaders only those within the stream count, and zero counts always. -/
theorem blockStarts_congr {leaders others : List Int}
    (h : ∀ i : Int, i ≠ 0 → 0 ≤ i → i < s.length → (i ∈ others ↔ i ∈ leaders)) :
    s.blockStarts others = s.blockStarts leaders := by
  apply ascendingSet_congr
  intro i
  by_cases hzero : i = 0
  · simp [hzero]
  · by_cases hrange : 0 ≤ i ∧ i < s.length
    · simp [hzero, inRange_iff.mpr hrange, h i hzero hrange.1 hrange.2]
    · have hout : ¬ s.inRange i = true := fun hin => hrange (inRange_iff.mp hin)
      simp [hzero, hout]

/-- A stream that is not empty can be cut at any list of integers, and lists that agree within the
stream, zero apart, cut it alike. -/
theorem partition_law (s : Stream) (hs : s.length ≠ 0) (leaders : List Int) :
    ∃ g, s.partition leaders = .ok g ∧ g.Partitions s leaders ∧
      ∀ others, (∀ i : Int, i ≠ 0 → 0 ≤ i → i < s.length → (i ∈ others ↔ i ∈ leaders)) →
        s.partition others = .ok g := by
  refine ⟨s.layout leaders, partition_eq s leaders hs, layout_partitions hs leaders, ?_⟩
  intro others hsame
  rw [partition_eq s others hs, cut, blockStarts_congr hsame]
  rfl

/-- Leaders out of order, repeated or outside the stream, against the same ones put right. -/
theorem whileLoop_partition_law : ∃ g, whileLoop.partition [9, 3, 2, 2, -1] = .ok g ∧
    g.Partitions whileLoop [9, 3, 2, 2, -1] ∧ g.blocks.map (·.start) = [0, 2, 3] ∧
    g.containing 1 = .ok 0 ∧ whileLoop.partition [0, 2, 3] = .ok g := by
  obtain ⟨g, hg, hlaw, hsame⟩ := partition_law whileLoop (by decide) [9, 3, 2, 2, -1]
  have hothers : whileLoop.partition [0, 2, 3] = .ok g := by
    apply hsame
    intro i hne hlow hhigh
    have hlength : whileLoop.length = 4 := rfl
    simp only [List.mem_cons, List.not_mem_nil, or_false]
    omega
  obtain rfl := Except.ok.inj hg
  exact ⟨_, rfl, hlaw, rfl, rfl, hothers⟩

end Stream

end FlowGraph
