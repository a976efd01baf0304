import FlowGraph.Proofs.Growth
import FlowGraph.Validate

/-!
What it means that a scan of the validation finds nothing. The scan of the partition walks the
blocks with the farthest index reached so far and is silent exactly on tilings; the scans of edges
and lists are silent when every edge is listed by its source, no block lists a stray edge, and
incoming lists hold the arriving edges; the scan of terminators is silent when no jump lies inside
a block and the outgoing edges are those that the last instruction calls for.
-/
namespace FlowGraph.Graph

variable {g : Graph} {b : Block}

theorem entryViolations_eq_nil_iff : g.entryViolations = [] ↔ g.entries.length = 1 := by
  simp [entryViolations]

theorem placeViolations_eq_nil_iff {position : Nat} {expected : Int} :
    placeViolations position expected b = [] ↔
      b.id = position ∧ b.start = expected ∧ b.start < b.stop := by
  simp [placeViolations]

/-- The farthest index reached is the last stop as long as nothing is found. -/
theorem walkBlocks_silent_iff {position : Nat} {expected stop : Int} {blocks : List Block} :
    walkBlocks position expected blocks = ([], stop) ↔
      TilesFrom stop position expected blocks := by
  induction blocks generalizing position expected with
  | nil => simp [walkBlocks, TilesFrom]
  | cons b rest ih =>
    simp only [walkBlocks, TilesFrom, Prod.mk.injEq, List.append_eq_nil_iff,
      placeViolations_eq_nil_iff]
    constructor
    · rintro ⟨⟨⟨hid, hstart, hlt⟩, hlater⟩, hreached⟩
      have hmax : max expected b.stop = b.stop := by omega
      rw [hmax] at hlater hreached
      exact ⟨hid, hstart, hlt, ih.mp (Prod.ext hlater hreached)⟩
    · rintro ⟨hid, hstart, hlt, hrest⟩
      have hmax : max expected b.stop = b.stop := by omega
      rw [hmax, ih.mpr hrest]
      exact ⟨⟨⟨hid, hstart, hlt⟩, rfl⟩, rfl⟩

theorem partitionViolations_eq_nil_iff :
    g.partitionViolations = [] ↔ TilesFrom g.stream.length 0 0 g.blocks := by
  rw [← walkBlocks_silent_iff]
  rcases hwalk : walkBlocks 0 0 g.blocks with ⟨violations, reached⟩
  simp only [partitionViolations, hwalk, Prod.mk.injEq]
  by_cases hreached : reached = g.stream.length
  · simp [hreached]
  · simp [hreached]

theorem hasBlock_iff {i : Int} : g.hasBlock i = true ↔ 0 ≤ i ∧ i < g.blocks.length := by
  simp [hasBlock]

theorem hasEdge_iff {i : Int} : g.hasEdge i = true ↔ 0 ≤ i ∧ i < g.edges.length := by
  simp [hasEdge]

theorem mem_outgoingAt_iff {i id : Int} :
    id ∈ g.outgoingAt i ↔ ∃ b, g.block i = .ok b ∧ id ∈ b.outgoing := by
  simp only [block_eq_ok_iff, outgoingAt]
  cases Position.get? g.blocks i <;> simp

theorem endpointViolations_eq_nil_iff : g.endpointViolations = [] ↔ ∀ e ∈ g.edges,
    (g.hasBlock e.source = true ∧ g.hasBlock e.target = true) ∧ e.id ∈ g.outgoingAt e.source := by
  have hone : ∀ e, g.endpointViolation? e = none ↔
      (g.hasBlock e.source = true ∧ g.hasBlock e.target = true) ∧
        e.id ∈ g.outgoingAt e.source := by
    intro e
    unfold endpointViolation?
    by_cases hends : g.hasBlock e.source = true ∧ g.hasBlock e.target = true
    · simp [hends]
    · simp [hends]
  simp only [endpointViolations, List.filterMap_eq_nil_iff, hone]

theorem strayEdges_eq_nil_iff : g.strayEdges b = [] ↔ ∀ id ∈ b.outgoing,
    g.hasEdge id = true ∧ ∀ e, Position.get? g.edges id = some e → e.source = b.id := by
  simp [strayEdges, List.filter_eq_nil_iff, Option.any_eq_false]

theorem mirrorViolation?_eq_none_iff :
    g.mirrorViolation? b = none ↔ b.incoming.Perm (g.arrivals b.id) := by
  rw [← ascending_eq_iff_perm]
  simp [mirrorViolation?]

theorem listViolations_eq_nil_iff : g.listViolations = [] ↔
    ∀ b ∈ g.blocks, g.strayEdges b = [] ∧ b.incoming.Perm (g.arrivals b.id) := by
  have hstray : ∀ b, g.strayViolation? b = none ↔ g.strayEdges b = [] := by
    intro b
    simp [strayViolation?]
  simp only [listViolations, List.flatMap_eq_nil_iff, List.append_eq_nil_iff,
    Option.toList_eq_nil_iff, hstray, mirrorViolation?_eq_none_iff]

theorem instruction_eq_ok_iff {i : Int} {x : Instruction} :
    g.instruction i = .ok x ↔ g.stream.get? i = some x := by
  unfold instruction Stream.instruction
  cases g.stream.get? i <;> simp

theorem terminator_id {length : Nat} (ht : Tiling g.blocks length) (hb : b ∈ g.blocks)
    {last : Instruction} (hlast : g.stream.get? b.lastIndex = some last) :
    g.terminator b.id = .ok last := by
  simp only [terminator, block_id ht hb, bind, Except.bind]
  exact instruction_eq_ok_iff.mpr hlast

/-- The search for jumps inside a block finds none, and every instruction it looks at is there. -/
theorem innerJumps_silent_iff {count : Nat} {index : Int} : g.innerJumps b count index = .ok [] ↔
    ∀ k : Nat, k < count → ∃ x, g.stream.get? (index + k) = some x ∧ x.kind.isJump = false := by
  induction count generalizing index with
  | zero => simp [innerJumps]
  | succ count ih =>
    constructor
    · intro h k hk
      cases hfirst : g.instruction index with
      | error fault => simp [innerJumps, hfirst, bind, Except.bind] at h
      | ok x =>
        cases hrest : g.innerJumps b count (index + 1) with
        | error fault => simp [innerJumps, hfirst, hrest, bind, Except.bind] at h
        | ok found =>
          simp only [innerJumps, hfirst, hrest, bind, Except.bind] at h
          split at h
          case isTrue => simp at h
          case isFalse hjump =>
            obtain rfl : found = [] := by simpa using h
            cases k with
            | zero =>
              exact ⟨x, by simpa using instruction_eq_ok_iff.mp hfirst, by simpa using hjump⟩
            | succ k =>
              obtain ⟨y, hy, hno⟩ := ih.mp hrest k (by omega)
              refine ⟨y, ?_, hno⟩
              rw [← hy]
              congr 1
              omega
    · intro h
      obtain ⟨x, hx, hjump⟩ := h 0 (by omega)
      have hfirst : g.instruction index = .ok x := instruction_eq_ok_iff.mpr (by simpa using hx)
      have hrest : g.innerJumps b count (index + 1) = .ok [] := by
        apply ih.mpr
        intro k hk
        obtain ⟨y, hy, hno⟩ := h (k + 1) (by omega)
        refine ⟨y, ?_, hno⟩
        rw [← hy]
        congr 1
        omega
      simp [innerJumps, hfirst, hrest, hjump, bind, Except.bind]

theorem exitViolation?_eq_none_iff {last : Instruction} : g.exitViolation? b last = none ↔
    b.outgoing.length = (expectedKinds last.kind).length ∧ b.terminal = last.kind.isTerminal ∧
      g.outgoingKinds b = expectedKinds last.kind := by
  unfold exitViolation?
  by_cases hlength : b.outgoing.length = (expectedKinds last.kind).length
  · by_cases hterminal : b.terminal = last.kind.isTerminal
    · simp [hlength, hterminal]
    · simp [hlength, hterminal]
  · simp [hlength]

/-- A block that is neither empty nor too long passes when no jump lies inside it and its edges
fit its last instruction. -/
theorem blockViolations_silent_iff (hlt : b.start < b.stop) (hstop : b.stop ≤ g.stream.length) :
    g.blockViolations b = .ok [] ↔
      (∀ i : Int, b.start ≤ i → i < b.lastIndex →
        ∃ x, g.stream.get? i = some x ∧ x.kind.isJump = false) ∧
      ∃ last, g.stream.get? b.lastIndex = some last ∧ g.exitViolation? b last = none := by
  have hskip : ¬ (b.stop ≤ b.start ∨ (g.stream.length : Int) < b.stop) := by omega
  have hjumps : g.innerJumps b (b.lastIndex - b.start).toNat b.start = .ok [] ↔
      ∀ i : Int, b.start ≤ i → i < b.lastIndex →
        ∃ x, g.stream.get? i = some x ∧ x.kind.isJump = false := by
    rw [innerJumps_silent_iff]
    constructor
    · intro h i hlow hhigh
      have hindex : b.start + ((i - b.start).toNat : Int) = i := by omega
      have hhere := h (i - b.start).toNat (by omega)
      rwa [hindex] at hhere
    · intro h k hk
      exact h (b.start + k) (by omega) (by omega)
  rw [← hjumps]
  simp only [blockViolations, if_neg hskip]
  cases hinner : g.innerJumps b (b.lastIndex - b.start).toNat b.start with
  | error fault => simp [bind, Except.bind]
  | ok jumps =>
    cases hlast : g.instruction b.lastIndex with
    | error fault =>
      have hnone : ∀ last, g.stream.get? b.lastIndex ≠ some last := by
        intro last h
        rw [instruction_eq_ok_iff.mpr h] at hlast
        cases hlast
      simp [bind, Except.bind, hnone]
    | ok last =>
      have hsome := instruction_eq_ok_iff.mp hlast
      simp [bind, Except.bind, hsome]

theorem terminatorViolations_silent_iff {blocks : List Block} :
    g.terminatorViolations blocks = .ok [] ↔ ∀ b ∈ blocks, g.blockViolations b = .ok [] := by
  induction blocks with
  | nil => simp [terminatorViolations]
  | cons b rest ih =>
    simp only [terminatorViolations, List.forall_mem_cons, ← ih]
    cases hhere : g.blockViolations b with
    | error fault => simp [bind, Except.bind]
    | ok here =>
      cases hlater : g.terminatorViolations rest with
      | error fault => simp [bind, Except.bind]
      | ok later => simp [bind, Except.bind]

/-- Ranks tell kinds apart, so that sorted kinds can be compared as lists. -/
theorem sortKinds_eq_iff_perm (kinds kinds' : List EdgeKind) :
    sortBy (fun x y => decide (x.rank ≤ y.rank)) kinds =
      sortBy (fun x y => decide (x.rank ≤ y.rank)) kinds' ↔ kinds.Perm kinds' := by
  have hrank : Function.Injective EdgeKind.rank := by
    intro a b
    cases a <;> cases b <;> decide
  exact sortBy_eq_iff_perm hrank kinds kinds'

end FlowGraph.Graph
