import FlowGraph.Stream

/-!
What the decoder's contract says about the instructions of a stream. A breach is described on its
own, apart from the scan that looks for one, and the scan is shown to stop at the first position
that has one. Streams have none, so each instruction of a stream stands at its declared index, and
exactly the branches and jumps have a target.
-/
namespace FlowGraph

namespace Position

theorem get?_natCast {α : Type} (xs : List α) (p : Nat) : get? xs (p : Int) = xs[p]? := by
  by_cases hp : p < xs.length
  · simp [get?, resolve?, hp]
  · have hneg : ¬ (p : Int) < 0 := by omega
    simp [get?, resolve?, hp, hneg]

theorem resolve?_natCast {n p : Nat} (hp : p < n) : resolve? n (p : Int) = some p := by
  simp [resolve?, hp]

theorem resolve?_eq_some_iff {n p : Nat} {i : Int} :
    resolve? n i = some p ↔ p < n ∧ (i = p ∨ i + n = p) := by
  unfold resolve?
  split
  · rw [Option.some.injEq]
    omega
  · split
    · rw [Option.some.injEq]
      omega
    · simp only [reduceCtorEq, false_iff]
      omega

/-- Something stands at the positions from minus the length up to the length. -/
theorem exists_get?_iff {α : Type} {xs : List α} {i : Int} :
    (∃ x, get? xs i = some x) ↔ -(xs.length : Int) ≤ i ∧ i < xs.length := by
  constructor
  · rintro ⟨x, hx⟩
    obtain ⟨p, hp, _⟩ := Option.bind_eq_some_iff.mp hx
    have := resolve?_eq_some_iff.mp hp
    omega
  · intro hi
    obtain ⟨p, hp⟩ : ∃ p, resolve? xs.length i = some p := by
      by_cases hfront : 0 ≤ i
      · exact ⟨i.toNat, resolve?_eq_some_iff.mpr (by omega)⟩
      · exact ⟨(i + xs.length).toNat, resolve?_eq_some_iff.mpr (by omega)⟩
    have hlt := (resolve?_eq_some_iff.mp hp).1
    exact ⟨xs[p], by simp [get?, hp, hlt]⟩

theorem mem_of_get? {α : Type} {xs : List α} {i : Int} {x : α} (h : get? xs i = some x) :
    x ∈ xs := by
  obtain ⟨p, _, hp⟩ := Option.bind_eq_some_iff.mp h
  exact List.mem_of_getElem? hp

end Position

/-- The ways an instruction at a position can break the contract. A wrong index hides the
others. -/
inductive Breached (p : Nat) (i : Instruction) : Breach → Prop
  | misplaced (hindex : i.index.toInt? ≠ some (p : Int)) : Breached p i (.misplaced i.index)
  | missingTarget (hindex : i.index.toInt? = some (p : Int)) (hjump : i.kind.isJump = true)
      (htarget : i.target = none) : Breached p i (.missingTarget i.kind)
  | strayTarget (hindex : i.index.toInt? = some (p : Int)) (hjump : i.kind.isJump = false)
      (htarget : i.target ≠ none) : Breached p i (.strayTarget i.kind)

theorem breachAt_eq_some_iff {p : Nat} {i : Instruction} {breach : Breach} :
    breachAt p i = some breach ↔ Breached p i breach := by
  constructor
  · intro h
    unfold breachAt at h
    split at h
    case isTrue hindex =>
      cases h
      exact .misplaced hindex
    case isFalse hindex =>
      have hindex : i.index.toInt? = some (p : Int) := Decidable.of_not_not hindex
      split at h
      case isTrue hmissing =>
        cases h
        exact .missingTarget hindex hmissing.1 (Option.isNone_iff_eq_none.mp hmissing.2)
      case isFalse =>
        split at h
        case isTrue hstray =>
          cases h
          have hsome := hstray.2
          exact .strayTarget hindex (by simpa using hstray.1)
            (by simpa [Option.isSome_iff_ne_none] using hsome)
        case isFalse => cases h
  · rintro (hindex | ⟨hindex, hjump, htarget⟩ | ⟨hindex, hjump, htarget⟩)
    · simp [breachAt, hindex]
    · simp [breachAt, hindex, hjump, htarget]
    · simp [breachAt, hindex, hjump, Option.isSome_iff_ne_none.mpr htarget]

/-- An instruction without a breach stands at its index, and has a target if it is a branch or
jump. -/
theorem breachAt_eq_none_iff {p : Nat} {i : Instruction} :
    breachAt p i = none ↔ i.index.toInt? = some (p : Int) ∧ i.target.isSome = i.kind.isJump := by
  unfold breachAt
  by_cases hindex : i.index.toInt? = some (p : Int)
  · cases hjump : i.kind.isJump <;> cases htarget : i.target <;> simp [hindex]
  · simp [hindex]

theorem firstBreach_eq_none_iff {start : Nat} {instructions : List Instruction} :
    firstBreach start instructions = none ↔
      ∀ k i, instructions[k]? = some i → breachAt (start + k) i = none := by
  induction instructions generalizing start with
  | nil => simp [firstBreach]
  | cons first rest ih =>
    cases hfirst : breachAt start first with
    | some breach =>
      simp only [firstBreach, hfirst, reduceCtorEq, false_iff]
      intro h
      have hnone : breachAt start first = none := h 0 first rfl
      simp [hnone] at hfirst
    | none =>
      simp only [firstBreach, hfirst, ih]
      constructor
      · intro h k i hk
        cases k with
        | zero =>
          obtain rfl : first = i := by simpa using hk
          exact hfirst
        | succ k =>
          have hrest := h k i (by simpa using hk)
          rwa [Nat.add_right_comm] at hrest
      · intro h k i hk
        have hnone := h (k + 1) i (by simpa using hk)
        rwa [← Nat.add_assoc, Nat.add_right_comm] at hnone

/-- The scan stops at the first position that has a breach and names that breach. -/
theorem firstBreach_eq_some {start p : Nat} {breach : Breach} {instructions : List Instruction}
    (h : firstBreach start instructions = some (p, breach)) :
    ∃ k i, p = start + k ∧ instructions[k]? = some i ∧ breachAt p i = some breach ∧
      ∀ q j, q < k → instructions[q]? = some j → breachAt (start + q) j = none := by
  induction instructions generalizing start with
  | nil => simp [firstBreach] at h
  | cons first rest ih =>
    cases hfirst : breachAt start first with
    | some found =>
      simp only [firstBreach, hfirst, Option.some.injEq, Prod.mk.injEq] at h
      obtain ⟨rfl, rfl⟩ := h
      exact ⟨0, first, rfl, rfl, hfirst, fun q j hq => absurd hq (Nat.not_lt_zero q)⟩
    | none =>
      simp only [firstBreach, hfirst] at h
      obtain ⟨k, i, hp, hk, hbreach, hbefore⟩ := ih h
      refine ⟨k + 1, i, by omega, by simpa using hk, hbreach, ?_⟩
      intro q j hq hj
      cases q with
      | zero =>
        obtain rfl : first = j := by simpa using hj
        exact hfirst
      | succ q =>
        have hnone := hbefore q j (by omega) (by simpa using hj)
        rwa [Nat.add_right_comm] at hnone

namespace Stream

variable {s : Stream} {p : Nat} {i : Instruction}

theorem index_eq (hi : s.instructions[p]? = some i) : i.index.toInt = p := by
  have hnone := firstBreach_eq_none_iff.mp s.contract p i hi
  have hindex := (breachAt_eq_none_iff.mp hnone).1
  simp only [Nat.zero_add] at hindex
  simp [Index.toInt, hindex]

theorem target_isSome (hi : s.instructions[p]? = some i) : i.target.isSome = i.kind.isJump :=
  (breachAt_eq_none_iff.mp (firstBreach_eq_none_iff.mp s.contract p i hi)).2

/-- A branch or jump of a stream leads where its target says. -/
theorem target_eq_goal (hi : s.instructions[p]? = some i) (hjump : i.kind.isJump = true) :
    i.target = some i.goal := by
  have hsome := target_isSome hi
  rw [hjump] at hsome
  obtain ⟨t, ht⟩ := Option.isSome_iff_exists.mp hsome
  simp [Instruction.goal, ht]

theorem inRange_iff {j : Int} : s.inRange j = true ↔ 0 ≤ j ∧ j < s.length := by
  simp [inRange]

theorem get?_natCast (p : Nat) : s.get? (p : Int) = s.instructions[p]? :=
  Position.get?_natCast s.instructions p

/-- Every index within the stream has its instruction. -/
theorem exists_get? {j : Int} (hj : 0 ≤ j) (hlt : j < s.length) :
    ∃ (p : Nat) (x : Instruction), (p : Int) = j ∧ s.instructions[p]? = some x ∧
      s.get? j = some x := by
  obtain ⟨p, rfl⟩ := Int.eq_ofNat_of_zero_le hj
  have hp : p < s.instructions.length := Int.ofNat_lt.mp hlt
  have hget : s.instructions[p]? = some s.instructions[p] := List.getElem?_eq_getElem hp
  exact ⟨p, s.instructions[p], rfl, hget, (get?_natCast p).trans hget⟩

theorem lt_length (hi : s.instructions[p]? = some i) : p < s.length :=
  (List.getElem?_eq_some_iff.mp hi).1

/-- A loop that tests, leaves by a branch or goes round by a jump, and returns. -/
def whileLoop : Stream where
  instructions :=
    [{ kind := .comparison, index := .number 0 },
      { kind := .conditionalJump, index := .number 1, target := some 3 },
      { kind := .unconditionalJump, index := .number 2, target := some 0 },
      { kind := .ret, index := .number 3 }]
  contract := rfl

/-- A jump over a return that nothing leads to. -/
def skipped : Stream where
  instructions :=
    [{ kind := .unconditionalJump, index := .number 0, target := some 3 },
      { kind := .call, index := .number 1 },
      { kind := .ret, index := .number 2 },
      { kind := .ret, index := .number 3 }]
  contract := rfl

end Stream

end FlowGraph
