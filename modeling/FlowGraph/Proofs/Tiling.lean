import FlowGraph.Partition
import FlowGraph.Proofs.Ordered
import FlowGraph.Proofs.Stream

/-!
Tilings of a stream by blocks: the blocks are not empty, each carries its position as its id, each
starts where the one before it stops, and together they reach from zero to the end. Every index
then lies in exactly one block. Cutting a stream at any list of integers gives a tiling, whose
blocks start at zero and at those integers of the list that lie within the stream.
-/
namespace FlowGraph

structure Tiling (blocks : List Block) (length : Nat) : Prop where
  nonempty : blocks ≠ []
  id_eq : ∀ (p : Nat) (b : Block), blocks[p]? = some b → b.id = p
  start_lt_stop : ∀ b ∈ blocks, b.start < b.stop
  first_start : ∀ b, blocks.head? = some b → b.start = 0
  next_start : ∀ (p : Nat) (b c : Block),
    blocks[p]? = some b → blocks[p + 1]? = some c → c.start = b.stop
  last_stop : ∀ b, blocks.getLast? = some b → b.stop = length

/-- The same read from the front: blocks from position `p` and index `start` on, up to `stop`. -/
def TilesFrom (stop : Int) : Nat → Int → List Block → Prop
  | _, start, [] => start = stop
  | p, start, b :: rest =>
    b.id = p ∧ b.start = start ∧ b.start < b.stop ∧ TilesFrom stop (p + 1) b.stop rest

namespace TilesFrom

variable {stop start : Int} {p : Nat} {blocks : List Block}

theorem start_le_stop (h : TilesFrom stop p start blocks) : start ≤ stop := by
  induction blocks generalizing p start with
  | nil => exact Int.le_of_eq h
  | cons b rest ih =>
    obtain ⟨_, hstart, hlt, hrest⟩ := h
    have := ih hrest
    omega

theorem bounds (h : TilesFrom stop p start blocks) :
    ∀ b ∈ blocks, start ≤ b.start ∧ b.start < b.stop ∧ b.stop ≤ stop := by
  induction blocks generalizing p start with
  | nil => simp
  | cons b rest ih =>
    obtain ⟨_, hstart, hlt, hrest⟩ := h
    intro c hc
    rcases List.mem_cons.mp hc with rfl | hc
    · exact ⟨by omega, hlt, hrest.start_le_stop⟩
    · obtain ⟨hlow, hmiddle, hhigh⟩ := ih hrest c hc
      exact ⟨by omega, hmiddle, hhigh⟩

theorem ordered (h : TilesFrom stop p start blocks) :
    blocks.Pairwise fun b c => b.stop ≤ c.start := by
  induction blocks generalizing p start with
  | nil => exact List.Pairwise.nil
  | cons b rest ih =>
    obtain ⟨_, _, _, hrest⟩ := h
    exact List.pairwise_cons.mpr ⟨fun c hc => (hrest.bounds c hc).1, ih hrest⟩

theorem id_eq (h : TilesFrom stop p start blocks) :
    ∀ (k : Nat) (b : Block), blocks[k]? = some b → b.id = (p + k : Nat) := by
  induction blocks generalizing p start with
  | nil => simp
  | cons first rest ih =>
    obtain ⟨hid, _, _, hrest⟩ := h
    intro k b hb
    cases k with
    | zero =>
      obtain rfl : first = b := by simpa using hb
      exact hid
    | succ k =>
      have := ih hrest k b (by simpa using hb)
      omega

theorem next_start (h : TilesFrom stop p start blocks) :
    ∀ (k : Nat) (b c : Block), blocks[k]? = some b → blocks[k + 1]? = some c →
      c.start = b.stop := by
  induction blocks generalizing p start with
  | nil => simp
  | cons first rest ih =>
    obtain ⟨_, _, _, hrest⟩ := h
    intro k b c hb hc
    cases k with
    | zero =>
      obtain rfl : first = b := by simpa using hb
      cases rest with
      | nil => simp at hc
      | cons second rest =>
        obtain rfl : second = c := by simpa using hc
        exact hrest.2.1
    | succ k => exact ih hrest k b c (by simpa using hb) (by simpa using hc)

theorem last_stop (h : TilesFrom stop p start blocks) :
    ∀ b, blocks.getLast? = some b → b.stop = stop := by
  induction blocks generalizing p start with
  | nil => simp
  | cons first rest ih =>
    obtain ⟨_, _, _, hrest⟩ := h
    intro b hb
    cases rest with
    | nil =>
      obtain rfl : first = b := by simpa using hb
      exact hrest
    | cons second rest =>
      exact ih hrest b (by simpa only [List.getLast?_cons_cons] using hb)

/-- Every index from `start` to `stop` lies in a block. -/
theorem exists_block (h : TilesFrom stop p start blocks) {i : Int} (hlow : start ≤ i)
    (hhigh : i < stop) : ∃ b ∈ blocks, b.start ≤ i ∧ i < b.stop := by
  induction blocks generalizing p start with
  | nil =>
    have hend : start = stop := h
    omega
  | cons b rest ih =>
    obtain ⟨_, hstart, _, hrest⟩ := h
    by_cases hi : i < b.stop
    · exact ⟨b, List.mem_cons_self, by omega, hi⟩
    · obtain ⟨c, hc, hheld⟩ := ih hrest (by omega)
      exact ⟨c, List.mem_cons_of_mem b hc, hheld⟩

end TilesFrom

/-- The local conditions of a tiling and the walk along its blocks say the same. -/
theorem tilesFrom_of_local {stop start : Int} {p : Nat} {blocks : List Block}
    (hid : ∀ (k : Nat) (b : Block), blocks[k]? = some b → b.id = (p + k : Nat))
    (hlt : ∀ b ∈ blocks, b.start < b.stop)
    (hfirst : ∀ b, blocks.head? = some b → b.start = start)
    (hnext : ∀ (k : Nat) (b c : Block),
      blocks[k]? = some b → blocks[k + 1]? = some c → c.start = b.stop)
    (hlast : ∀ b, blocks.getLast? = some b → b.stop = stop) (hnonempty : blocks ≠ []) :
    TilesFrom stop p start blocks := by
  induction blocks generalizing p start with
  | nil => exact absurd rfl hnonempty
  | cons b rest ih =>
    refine ⟨hid 0 b rfl, hfirst b rfl, hlt b List.mem_cons_self, ?_⟩
    cases rest with
    | nil => exact hlast b rfl
    | cons c rest =>
      apply ih
      · intro k d hd
        have := hid (k + 1) d (by simpa using hd)
        omega
      · exact fun d hd => hlt d (List.mem_cons_of_mem b hd)
      · intro d hd
        obtain rfl : c = d := by simpa using hd
        exact hnext 0 b c rfl rfl
      · intro k d e hd he
        exact hnext (k + 1) d e (by simpa using hd) (by simpa using he)
      · exact fun d hd => hlast d (by simpa only [List.getLast?_cons_cons] using hd)
      · exact List.cons_ne_nil c rest

theorem tiling_iff_tilesFrom {blocks : List Block} {length : Nat} :
    Tiling blocks length ↔ blocks ≠ [] ∧ TilesFrom length 0 0 blocks := by
  constructor
  · intro h
    refine ⟨h.nonempty, tilesFrom_of_local ?_ h.start_lt_stop h.first_start h.next_start
      h.last_stop h.nonempty⟩
    intro k b hb
    simpa using h.id_eq k b hb
  · rintro ⟨hnonempty, h⟩
    refine ⟨hnonempty, ?_, fun b hb => (h.bounds b hb).2.1, ?_, h.next_start, h.last_stop⟩
    · intro k b hb
      simpa using h.id_eq k b hb
    · intro b hb
      cases blocks with
      | nil => exact absurd rfl hnonempty
      | cons first rest =>
        obtain rfl : first = b := by simpa using hb
        exact h.2.1

namespace Tiling

variable {blocks : List Block} {length : Nat}

theorem tilesFrom (h : Tiling blocks length) : TilesFrom length 0 0 blocks :=
  (tiling_iff_tilesFrom.mp h).2

theorem bounds (h : Tiling blocks length) {b : Block} (hb : b ∈ blocks) :
    0 ≤ b.start ∧ b.start < b.stop ∧ b.stop ≤ length := h.tilesFrom.bounds b hb

theorem exists_block (h : Tiling blocks length) {i : Int} (hi : 0 ≤ i) (hlt : i < length) :
    ∃ b ∈ blocks, b.start ≤ i ∧ i < b.stop := h.tilesFrom.exists_block hi hlt

/-- A block of a tiling stands at the position its id names. -/
theorem getElem?_id (h : Tiling blocks length) {b : Block} (hb : b ∈ blocks) :
    ∃ p : Nat, b.id = p ∧ blocks[p]? = some b := by
  obtain ⟨p, hp⟩ := List.mem_iff_getElem?.mp hb
  exact ⟨p, h.id_eq p b hp, hp⟩

theorem stop_le_start (h : Tiling blocks length) {p q : Nat} {b c : Block}
    (hb : blocks[p]? = some b) (hc : blocks[q]? = some c) (hpq : p < q) : b.stop ≤ c.start := by
  obtain ⟨hp, rfl⟩ := List.getElem?_eq_some_iff.mp hb
  obtain ⟨hq, rfl⟩ := List.getElem?_eq_some_iff.mp hc
  exact List.pairwise_iff_getElem.mp h.tilesFrom.ordered p q hp hq hpq

/-- Two blocks that hold a common index are one. -/
theorem eq_of_common (h : Tiling blocks length) {b c : Block} (hb : b ∈ blocks) (hc : c ∈ blocks)
    {i : Int} (hbi : b.start ≤ i ∧ i < b.stop) (hci : c.start ≤ i ∧ i < c.stop) : b = c := by
  obtain ⟨p, hp⟩ := List.mem_iff_getElem?.mp hb
  obtain ⟨q, hq⟩ := List.mem_iff_getElem?.mp hc
  rcases Nat.lt_trichotomy p q with hlt | rfl | hlt
  · have := h.stop_le_start hp hq hlt
    omega
  · exact Option.some.inj (hp.symm.trans hq)
  · have := h.stop_le_start hq hp hlt
    omega

theorem eq_of_start (h : Tiling blocks length) {b c : Block} (hb : b ∈ blocks) (hc : c ∈ blocks)
    (hstart : b.start = c.start) : b = c := by
  have hblt := h.start_lt_stop b hb
  have hclt := h.start_lt_stop c hc
  exact h.eq_of_common hb hc ⟨Int.le_refl _, hblt⟩ ⟨by omega, by omega⟩

/-- Whether blocks form a tiling depends on their ids, starts and stops alone. -/
theorem of_same_extents {old : List Block} (h : Tiling old length)
    (hlength : blocks.length = old.length)
    (hsame : ∀ (p : Nat) (b : Block), blocks[p]? = some b →
      ∃ c, old[p]? = some c ∧ b.id = c.id ∧ b.start = c.start ∧ b.stop = c.stop) :
    Tiling blocks length := by
  constructor
  · intro hnil
    rw [hnil] at hlength
    exact h.nonempty (List.length_eq_zero_iff.mp hlength.symm)
  · intro p b hb
    obtain ⟨c, hp, hid, -, -⟩ := hsame p b hb
    rw [hid]
    exact h.id_eq p c hp
  · intro b hb
    obtain ⟨p, hp⟩ := List.mem_iff_getElem?.mp hb
    obtain ⟨c, hp, -, hstart, hstop⟩ := hsame p b hp
    rw [hstart, hstop]
    exact h.start_lt_stop c (List.mem_of_getElem? hp)
  · intro b hb
    rw [List.head?_eq_getElem?] at hb
    obtain ⟨c, hp, -, hstart, -⟩ := hsame 0 b hb
    rw [hstart]
    exact h.first_start c (by rwa [List.head?_eq_getElem?])
  · intro p b c hb hc
    obtain ⟨first, hp, -, -, hstop⟩ := hsame p b hb
    obtain ⟨second, hnext, -, hstart, -⟩ := hsame (p + 1) c hc
    rw [hstart, hstop]
    exact h.next_start p first second hp hnext
  · intro b hb
    rw [List.getLast?_eq_getElem?, hlength] at hb
    obtain ⟨c, hp, -, -, hstop⟩ := hsame _ b hb
    rw [hstop]
    exact h.last_stop c (by rwa [List.getLast?_eq_getElem?])

/-- A block that stops short of the end is followed by a block that starts there. -/
theorem exists_next (h : Tiling blocks length) {b : Block} (hb : b ∈ blocks)
    (hlt : b.stop < length) : ∃ c ∈ blocks, c.start = b.stop := by
  have hbounds := h.bounds hb
  obtain ⟨c, hc, hlow, hhigh⟩ := h.exists_block (i := b.stop) (by omega) hlt
  refine ⟨c, hc, ?_⟩
  obtain ⟨p, hp⟩ := List.mem_iff_getElem?.mp hb
  obtain ⟨q, hq⟩ := List.mem_iff_getElem?.mp hc
  rcases Nat.lt_trichotomy p q with hpq | rfl | hpq
  · have := h.stop_le_start hp hq hpq
    omega
  · obtain rfl : b = c := Option.some.inj (hp.symm.trans hq)
    omega
  · have := h.stop_le_start hq hp hpq
    omega

end Tiling

theorem cutBlocks_tilesFrom {stop start : Int} {p : Nat} {rest : List Int}
    (hstrict : (start :: rest).Pairwise (· < ·)) (hlt : ∀ x ∈ start :: rest, x < stop) :
    TilesFrom stop p start (cutBlocks stop p (start :: rest)) := by
  induction rest generalizing start p with
  | nil => exact ⟨rfl, rfl, hlt start List.mem_cons_self, rfl⟩
  | cons next rest ih =>
    obtain ⟨hnext, hrest⟩ := List.pairwise_cons.mp hstrict
    refine ⟨rfl, rfl, hnext next List.mem_cons_self, ?_⟩
    have htail := @ih next (p + 1) hrest (fun x hx => hlt x (List.mem_cons_of_mem start hx))
    simpa using htail

theorem cutBlocks_starts (stop id : Int) (starts : List Int) :
    (cutBlocks stop id starts).map (·.start) = starts := by
  fun_induction cutBlocks stop id starts with
  | case1 => rfl
  | case2 => rfl
  | case3 id start next rest ih => simp only [List.map_cons, ih]

/-- Freshly cut blocks list no edges, are not terminal and are not frozen. -/
theorem cutBlocks_bare (stop id : Int) (starts : List Int) :
    ∀ b ∈ cutBlocks stop id starts, b = { id := b.id, start := b.start, stop := b.stop } := by
  fun_induction cutBlocks stop id starts with
  | case1 => simp
  | case2 => simp
  | case3 id start next rest ih =>
    intro b hb
    rcases List.mem_cons.mp hb with rfl | hb
    · rfl
    · exact ih b hb

namespace Stream

theorem mem_blockStarts {s : Stream} {leaders : List Int} {i : Int} :
    i ∈ s.blockStarts leaders ↔ i = 0 ∨ i ∈ leaders ∧ 0 ≤ i ∧ i < s.length := by
  simp [blockStarts, inRange_iff]

/-- The first start is zero, whatever the leaders. -/
theorem blockStarts_cons (s : Stream) (leaders : List Int) :
    ∃ rest, s.blockStarts leaders = 0 :: rest := by
  have hstrict : (s.blockStarts leaders).Pairwise (· < ·) := ascendingSet_strict _
  have hzero : 0 ∈ s.blockStarts leaders := mem_blockStarts.mpr (Or.inl rfl)
  cases hstarts : s.blockStarts leaders with
  | nil => simp [hstarts] at hzero
  | cons first rest =>
    rw [hstarts] at hstrict hzero
    have hfirst : first ∈ s.blockStarts leaders := hstarts ▸ List.mem_cons_self
    have hnonneg : 0 ≤ first := by
      rcases mem_blockStarts.mp hfirst with h | h <;> omega
    rcases List.mem_cons.mp hzero with h | h
    · exact ⟨rest, by rw [h]⟩
    · have := (List.pairwise_cons.mp hstrict).1 0 h
      omega

variable (s : Stream) (leaders : List Int)

def cut : List Block := cutBlocks s.length 0 (s.blockStarts leaders)

theorem cut_tiling (hs : s.length ≠ 0) : Tiling (s.cut leaders) s.length := by
  obtain ⟨rest, hrest⟩ := s.blockStarts_cons leaders
  have hstrict : (s.blockStarts leaders).Pairwise (· < ·) := ascendingSet_strict _
  have hlt : ∀ x ∈ s.blockStarts leaders, x < s.length := by
    intro x hx
    rcases mem_blockStarts.mp hx with h | h <;> omega
  rw [hrest] at hstrict hlt
  have htiles : TilesFrom s.length 0 0 (s.cut leaders) := by
    unfold cut
    rw [hrest]
    exact cutBlocks_tilesFrom hstrict hlt
  refine tiling_iff_tilesFrom.mpr ⟨?_, htiles⟩
  intro hnil
  rw [hnil] at htiles
  have hzero : (0 : Int) = s.length := htiles
  omega

theorem mem_cut_start {i : Int} :
    (∃ b ∈ s.cut leaders, b.start = i) ↔ i = 0 ∨ i ∈ leaders ∧ 0 ≤ i ∧ i < s.length := by
  rw [← mem_blockStarts, ← cutBlocks_starts s.length 0 (s.blockStarts leaders), List.mem_map]
  rfl

theorem partition_eq (hs : s.length ≠ 0) :
    s.partition leaders = .ok (Graph.ofBlocks s (s.cut leaders)) := by
  simp [partition, hs, cut]

end Stream

end FlowGraph
