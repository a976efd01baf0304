import FlowGraph.Proofs.Drawing
import FlowGraph.Proofs.Reach

/-!
Validation of graphs that need not be any good. The blocks may have any ids and ranges, and any
edges and marks may have been drawn, or have failed to be. A report is given unless a block that
is to be read starts too far before the stream, or the one block that starts at zero carries an id
that is no place of a block while the endpoints are sound. Those are the only ways to fail, and
whatever is wrong with ids, entries, ranges or endpoints stands in every report that is given.
-/
namespace FlowGraph

def Stream.drawn (s : Stream) (blocks : List Block) (edits : List Edit) : Graph :=
  Edit.run (Graph.ofBlocks s blocks) edits

namespace Graph

/-- The violations tell of every misplaced block, of a missing or doubled entry, of every block
that is empty or reaches outside the stream, and of every edge that joins a block that does not
exist. -/
structure Shows (g : Graph) (violations : List Violation) : Prop where
  misplaced : ∀ (p : Nat) (b : Block), g.blocks[p]? = some b → b.id ≠ p →
    ∃ v ∈ violations, v.invariant = .partition ∧ v.blocks = [b.id]
  entry : g.entries.length ≠ 1 →
    ∃ v ∈ violations, v.invariant = .singleEntry ∧ v.blocks = g.entries
  range : ∀ b ∈ g.blocks, ¬ (0 ≤ b.start ∧ b.start < b.stop ∧ b.stop ≤ g.stream.length) →
    ∃ v ∈ violations, v.invariant = .partition
  endpoint : ∀ e ∈ g.edges, ¬ (g.hasBlock e.source = true ∧ g.hasBlock e.target = true) →
    ∃ v ∈ violations, v.invariant = .edgeEndpoints ∧ v.edges = [e.id]

variable {g after : Graph} {b : Block}

section Findings

/-- A block is judged against an index that the blocks before it reach, and its violations are
kept. -/
theorem exists_placeViolations {position p : Nat} {expected : Int} {blocks : List Block}
    (hb : blocks[p]? = some b) : ∃ reached, expected ≤ reached ∧
      ∀ v ∈ placeViolations (position + p) reached b,
        v ∈ (walkBlocks position expected blocks).1 := by
  induction blocks generalizing position expected p with
  | nil => simp at hb
  | cons first rest ih =>
    cases p with
    | zero =>
      obtain rfl : first = b := by simpa using hb
      exact ⟨expected, Int.le_refl _, fun v hv => List.mem_append_left _ hv⟩
    | succ p =>
      obtain ⟨reached, hle, hkept⟩ :=
        @ih (position + 1) p (max expected first.stop) (by simpa using hb)
      refine ⟨reached, by omega, ?_⟩
      intro v hv
      rw [show position + (p + 1) = position + 1 + p by omega] at hv
      exact List.mem_append_right _ (hkept v hv)

theorem expected_le_reached (position : Nat) (expected : Int) (blocks : List Block) :
    expected ≤ (walkBlocks position expected blocks).2 := by
  induction blocks generalizing position expected with
  | nil => exact Int.le_refl _
  | cons first rest ih =>
    have hrest : _ ≤ (walkBlocks position expected (first :: rest)).2 :=
      ih (position + 1) (max expected first.stop)
    omega

theorem stop_le_reached {position : Nat} {expected : Int} {blocks : List Block}
    (hb : b ∈ blocks) :
    b.stop ≤ (walkBlocks position expected blocks).2 := by
  induction blocks generalizing position expected with
  | nil => cases hb
  | cons first rest ih =>
    rcases List.mem_cons.mp hb with rfl | hb
    · have hrest : _ ≤ (walkBlocks position expected (b :: rest)).2 :=
        expected_le_reached (position + 1) (max expected b.stop) rest
      omega
    · exact ih hb

theorem mem_partitionViolations {v : Violation} (hv : v ∈ (walkBlocks 0 0 g.blocks).1) :
    v ∈ g.partitionViolations := by
  simp only [partitionViolations]
  split
  · exact hv
  · exact List.mem_append_left _ hv

theorem of_mem_placeViolations {position : Nat} {expected : Int} {v : Violation}
    (hv : v ∈ placeViolations position expected b) :
    v.invariant = .partition ∧ v.blocks = [b.id] := by
  simp only [placeViolations, List.mem_append] at hv
  rcases hv with (hv | hv) | hv
  all_goals
    split at hv
    · simp_all
    · simp_all

/-- A block that is not where it belongs is named by a violation of the partition. -/
theorem exists_partitionViolation {p : Nat} (hb : g.blocks[p]? = some b)
    (h : ¬ (b.id = p ∧ 0 ≤ b.start ∧ b.start < b.stop)) :
    ∃ v ∈ g.partitionViolations, v.invariant = .partition ∧ v.blocks = [b.id] := by
  obtain ⟨reached, hle, hkept⟩ := @exists_placeViolations b 0 p 0 g.blocks hb
  rw [Nat.zero_add] at hkept
  have hsome : placeViolations p reached b ≠ [] := by
    rw [Ne, placeViolations_eq_nil_iff]
    omega
  obtain ⟨v, hv⟩ := List.exists_mem_of_ne_nil _ hsome
  exact ⟨v, mem_partitionViolations (hkept v hv), of_mem_placeViolations hv⟩

theorem exists_overrun (hb : b ∈ g.blocks) (h : g.stream.length < b.stop) :
    ∃ v ∈ g.partitionViolations, v.invariant = .partition := by
  have hstop : b.stop ≤ (walkBlocks 0 0 g.blocks).2 := stop_le_reached hb
  have hreached : ¬ (walkBlocks 0 0 g.blocks).2 = g.stream.length := by omega
  simp only [partitionViolations, if_neg hreached]
  exact ⟨_, List.mem_append_right _ (List.mem_singleton_self _), rfl⟩

theorem exists_entryViolation (h : g.entries.length ≠ 1) :
    ∃ v ∈ g.entryViolations, v.invariant = .singleEntry ∧ v.blocks = g.entries := by
  simp only [entryViolations, if_neg h]
  exact ⟨_, List.mem_singleton_self _, rfl, rfl⟩

theorem exists_endpointViolation {e : Edge} (he : e ∈ g.edges)
    (h : ¬ (g.hasBlock e.source = true ∧ g.hasBlock e.target = true)) :
    ∃ v ∈ g.endpointViolations, v.invariant = .edgeEndpoints ∧ v.edges = [e.id] := by
  obtain ⟨v, hv, hfound⟩ : ∃ v, g.endpointViolation? e = some v ∧ v.invariant = .edgeEndpoints ∧
      v.edges = [e.id] := by
    simp only [endpointViolation?, if_pos h]
    exact ⟨_, rfl, rfl, rfl⟩
  exact ⟨v, List.mem_filterMap.mpr ⟨e, he, hv⟩, hfound⟩

end Findings

/-- Every report shows what is wrong with ids, entries, ranges and endpoints. -/
theorem shows_of_validate {r : Report} (h : g.validate = .ok r) : g.Shows r.violations := by
  obtain ⟨found, _, hviolations⟩ := exists_terminators h
  rw [hviolations]
  constructor
  · intro p b hb hid
    obtain ⟨v, hv, hfound⟩ := exists_partitionViolation hb fun hplace => hid hplace.1
    exact ⟨v, by simp [hv], hfound⟩
  · intro hcount
    obtain ⟨v, hv, hfound⟩ := exists_entryViolation hcount
    exact ⟨v, by simp [hv], hfound⟩
  · intro b hb hout
    by_cases hplace : 0 ≤ b.start ∧ b.start < b.stop
    · obtain ⟨v, hv, hfound⟩ := exists_overrun hb (by omega)
      exact ⟨v, by simp [hv], hfound⟩
    · obtain ⟨p, hp⟩ := List.mem_iff_getElem?.mp hb
      obtain ⟨v, hv, hfound, _⟩ := exists_partitionViolation hp fun h => hplace h.2
      exact ⟨v, by simp [hv], hfound⟩
  · intro e he hends
    obtain ⟨v, hv, hfound⟩ := exists_endpointViolation he hends
    exact ⟨v, by simp [hv], hfound⟩

/-- With one block at zero and a table that is up to date, the entry is that block's id. -/
theorem entry_of_entries (hu : g.UpToDate) {c : Int} (h : g.entries = [c]) : g.entry = .ok c := by
  have hmem : ∀ b ∈ g.blocks, b.start = 0 → b.id = c := by
    intro b hb hstart
    have hentry : b.id ∈ g.entries :=
      List.mem_map.mpr ⟨b, List.mem_filter.mpr ⟨hb, by simpa using hstart⟩, rfl⟩
    rw [h] at hentry
    exact List.mem_singleton.mp hentry
  cases hfound : g.startingAt? 0 with
  | none =>
    have hnone := (startingAt?_eq_none_iff hu).mp hfound
    have hempty : g.entries = [] := by
      unfold entries
      rw [List.map_eq_nil_iff, List.filter_eq_nil_iff]
      intro b hb
      simpa using hnone b hb
    rw [h] at hempty
    cases hempty
  | some d =>
    obtain ⟨b, hb, hstart, rfl⟩ := exists_of_startingAt? hu hfound
    simp [entry, hfound, hmem b hb hstart]

/-- A graph with an up-to-date table is reported on just when its blocks can all be read and, if
there is a search, the one entry is the place of a block. -/
theorem UpToDate.validate_ok_iff (hu : g.UpToDate) : (∃ r, g.validate = .ok r) ↔
    (∀ b ∈ g.blocks, b.Legible g.stream.length) ∧ (g.endpointsSound = true →
      ∀ c, g.entries = [c] → -(g.blocks.length : Int) ≤ c ∧ c < g.blocks.length) := by
  rw [Graph.validate_ok_iff]
  apply and_congr Iff.rfl
  constructor
  · intro h hsound c hc
    obtain ⟨d, b, hentry, hblock⟩ := h (by rw [hc]; rfl) hsound
    obtain rfl : c = d := Except.ok.inj ((entry_of_entries hu hc).symm.trans hentry)
    exact exists_block_iff.mp ⟨b, hblock⟩
  · intro h hcount hsound
    obtain ⟨c, hc⟩ := List.length_eq_one_iff.mp hcount
    obtain ⟨b, hb⟩ := exists_block_iff.mpr (h hsound c hc)
    exact ⟨c, b, entry_of_entries hu hc, hb⟩

/-- The two ways in which a graph with an up-to-date table fails to be reported on. -/
theorem UpToDate.validate_error (hu : g.UpToDate) {fault : Fault}
    (h : g.validate = .error fault) :
    (∃ b ∈ g.blocks, ¬ b.Legible g.stream.length ∧ fault = .ofPosition b.start .noInstruction) ∨
      ∃ c, g.entries = [c] ∧ ¬ (-(g.blocks.length : Int) ≤ c ∧ c < g.blocks.length) ∧
        fault = .ofPosition c .noBlock := by
  by_cases hlegible : ∀ b ∈ g.blocks, b.Legible g.stream.length
  · right
    obtain ⟨violations, hvalidate⟩ := validate_of_legible hlegible
    rw [hvalidate] at h
    split at h
    · rename_i hguard
      obtain ⟨c, hc⟩ := List.length_eq_one_iff.mp hguard.1
      have hentry := entry_of_entries hu hc
      by_cases hplace : -(g.blocks.length : Int) ≤ c ∧ c < g.blocks.length
      · obtain ⟨b, hb⟩ := exists_block_iff.mpr hplace
        obtain ⟨dead, hdead⟩ := (navigable_of_endpointsSound hguard.2).unreachable_ok_iff.mpr
          ⟨c, b, hentry, hb⟩
        rw [hdead] at h
        cases h
      · rw [unreachable_of_stranded hentry (block_of_outside hplace)] at h
        cases h
        exact ⟨c, hc, hplace, rfl⟩
    · cases h
  · left
    obtain ⟨before, b, after, hblocks, hbefore, hb⟩ := exists_first_not hlegible
    rw [validate_of_illegible hblocks hbefore hb] at h
    cases h
    exact ⟨b, by simp [hblocks], hb, rfl⟩

namespace Extends

/-- What is read off the extents and ids of the blocks holds for all of them as it did before. -/
theorem forall_iff (h : g.Extends after) {P : Block → Prop}
    (hP : ∀ b c : Block, b.Extends c → (P c ↔ P b)) :
    (∀ c ∈ after.blocks, P c) ↔ ∀ b ∈ g.blocks, P b := by
  have hmap := h.map_eq P fun b c hext => propext (hP b c hext)
  have hread : ∀ blocks : List Block, (∀ fact ∈ blocks.map P, fact) ↔ ∀ b ∈ blocks, P b :=
    fun _ => List.forall_mem_map
  rw [← hread, hmap, hread]

theorem legible_iff (h : g.Extends after) (length : Nat) :
    (∀ c ∈ after.blocks, c.Legible length) ↔ ∀ b ∈ g.blocks, b.Legible length := by
  apply h.forall_iff
  intro b c hext
  simp only [Block.Legible, hext.start_eq, hext.stop_eq]

theorem entries_eq (h : g.Extends after) : after.entries = g.entries := by
  have hplaces : after.blocks.map (fun b => (b.start, b.id)) =
      g.blocks.map fun b => (b.start, b.id) :=
    h.map_eq _ fun b c hext => by rw [hext.start_eq, hext.id_eq]
  have hread : ∀ blocks : List Block, (blocks.filter fun b => b.start == 0).map (·.id) =
      ((blocks.map fun b => (b.start, b.id)).filter fun place => place.1 == 0).map (·.2) := by
    intro blocks
    rw [List.filter_map, List.map_map]
    rfl
  unfold entries
  rw [hread, hplaces, ← hread]

end Extends

end Graph

/-- Validation of any blocks with anything drawn on them. There is a report just when every block
that is to be read starts within reach of the stream and, if the endpoints are sound and one block
alone starts at zero, its id is the place of a block. It fails in no other way, and no report
keeps a defect to itself. -/
theorem Stream.validate_drawn (s : Stream) (blocks : List Block) {edits : List Edit}
    (hdraws : ∀ e ∈ edits, e.draws = true) :
    ((∃ r, (s.drawn blocks edits).validate = .ok r) ↔
      (∀ b ∈ blocks, b.Legible s.length) ∧ ((s.drawn blocks edits).endpointsSound = true →
        ∀ c, (Graph.ofBlocks s blocks).entries = [c] →
          -(blocks.length : Int) ≤ c ∧ c < blocks.length)) ∧
    (∀ fault, (s.drawn blocks edits).validate = .error fault →
      (∃ b ∈ blocks, ¬ b.Legible s.length ∧ fault = .ofPosition b.start .noInstruction) ∨
      ∃ c, (Graph.ofBlocks s blocks).entries = [c] ∧
        ¬ (-(blocks.length : Int) ≤ c ∧ c < blocks.length) ∧
        fault = .ofPosition c .noBlock) ∧
    ∀ r, (s.drawn blocks edits).validate = .ok r → (s.drawn blocks edits).Shows r.violations := by
  have hext : (Graph.ofBlocks s blocks).Extends (s.drawn blocks edits) := Edit.run_extends hdraws
  have hu : (s.drawn blocks edits).UpToDate := hext.upToDate (Graph.ofBlocks_upToDate s blocks)
  have hlength : (s.drawn blocks edits).blocks.length = blocks.length := hext.length_eq
  refine ⟨?_, ?_, fun r => Graph.shows_of_validate⟩
  · rw [hu.validate_ok_iff, hext.legible_iff, hext.entries_eq, hext.stream_eq, hlength]
    rfl
  · intro fault hfault
    rcases hu.validate_error hfault with ⟨c, hc, hillegible, rfl⟩ | ⟨c, hc, hplace, rfl⟩
    · left
      obtain ⟨p, hp⟩ := List.mem_iff_getElem?.mp hc
      obtain ⟨b, hb, hsame⟩ := hext.exists_old hp
      rw [hext.stream_eq] at hillegible
      unfold Block.Legible at hillegible
      rw [hsame.start_eq, hsame.stop_eq] at hillegible
      exact ⟨b, List.mem_of_getElem? hb, hillegible, by rw [hsame.start_eq]⟩
    · right
      rw [hext.entries_eq] at hc
      rw [hlength] at hplace
      exact ⟨c, hc, hplace, rfl⟩

/-- Blocks numbered backwards, with an edge to nowhere and a mark on no block, are reported on. -/
theorem Stream.whileLoop_validate_drawn :
    ∃ r, (whileLoop.drawn [{ id := 1, start := 0, stop := 3 }, { id := 0, start := 3, stop := 9 }]
        [.addEdge (-1) 7 .fallthrough, .markTerminal 2]).validate = .ok r ∧
      ∃ v ∈ r.violations, v.invariant = .edgeEndpoints ∧ v.edges = [0] := by
  obtain ⟨hreport, _, hshows⟩ := validate_drawn whileLoop
    [{ id := 1, start := 0, stop := 3 }, { id := 0, start := 3, stop := 9 }]
    (show ∀ e ∈ [Edit.addEdge (-1) 7 .fallthrough, .markTerminal 2], e.draws = true by decide)
  obtain ⟨r, hr⟩ := hreport.mpr ⟨by decide, fun hsound => absurd hsound (by decide)⟩
  exact ⟨r, hr, (hshows r hr).endpoint ⟨0, -1, 7, .fallthrough⟩ (by decide) (by decide)⟩

def Stream.loneReturn : Stream where
  instructions := [{ kind := .ret, index := .number 0 }]
  contract := rfl

/-- A block with an id that is no place, and one that starts before the stream, go without a
report. -/
theorem Stream.loneReturn_unreported :
    (loneReturn.drawn [{ id := 5, start := 0, stop := 1 }] []).validate = .error .noBlock ∧
    (loneReturn.drawn [{ id := 0, start := -2, stop := 1 }] []).validate =
      .error .noInstruction :=
  ⟨rfl, rfl⟩

end FlowGraph
