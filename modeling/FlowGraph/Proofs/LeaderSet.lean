import FlowGraph.Proofs.Build

/-!
The set of leaders. Which indices have to start a block is said here by three rules, apart from
the way they are collected: the first index does, every target of a branch or jump does, and the
index after a branch or jump does if there is one. What is collected is the strictly ascending
list of these indices, however often the rules meet in one of them. A target outside the stream is
never passed over: the first branch or jump that has one is named, wherever it stands among the
others.
-/
namespace FlowGraph.Stream

inductive Leader (s : Stream) : Int → Prop
  | first (hs : s.length ≠ 0) : Leader s 0
  | target {p : Nat} {i : Instruction} {t : Int} (hi : s.instructions[p]? = some i)
      (hjump : i.kind.isJump = true) (htarget : i.target = some t) : Leader s t
  | next {p : Nat} {i : Instruction} (hi : s.instructions[p]? = some i)
      (hjump : i.kind.isJump = true) (hlt : p + 1 < s.length) : Leader s (p + 1 : Nat)

structure FirstStray (s : Stream) (p : Nat) (i : Instruction) (t : Int) : Prop where
  at_position : s.instructions[p]? = some i
  outside : LeadsOutside s.length i t
  earlier : ∀ q j, q < p → s.instructions[q]? = some j → ∀ u, ¬ LeadsOutside s.length j u

variable {s : Stream} {leaders : List Int}

theorem not_leader_of_empty (hs : s.length = 0) (x : Int) : ¬ s.Leader x := by
  intro hleader
  cases hleader with
  | first hne => exact hne hs
  | target hi _ _ =>
    have := lt_length hi
    omega
  | next hi _ _ =>
    have := lt_length hi
    omega

theorem mem_leaders_iff_leader (hs : s.length ≠ 0) (h : TargetsInside s.instructions)
    (hleaders : s.leaders = .ok leaders) (x : Int) : x ∈ leaders ↔ s.Leader x := by
  rw [mem_leaders hs h hleaders]
  constructor
  · rintro (rfl | ⟨p, i, hi, hjump, rfl | ⟨rfl, hlt⟩⟩)
    · exact .first hs
    · exact .target hi hjump (target_eq_goal hi hjump)
    · exact .next hi hjump (by omega)
  · intro hleader
    cases hleader with
    | first _ => exact .inl rfl
    | @target p i _ hi hjump htarget =>
      have hgoal : x = i.goal := by simp [Instruction.goal, htarget]
      exact .inr ⟨p, i, hi, hjump, .inl hgoal⟩
    | @next p i hi hjump hlt =>
      exact .inr ⟨p, i, hi, hjump, .inr ⟨by omega, by omega⟩⟩

theorem leaders_of_inside (h : TargetsInside s.instructions) :
    ∃ leaders, s.leaders = .ok leaders ∧
    leaders.Pairwise (· < ·) ∧ ∀ x, x ∈ leaders ↔ s.Leader x := by
  by_cases hs : s.length = 0
  · refine ⟨[], by simp [Stream.leaders, hs], .nil, ?_⟩
    intro x
    simp [not_leader_of_empty hs x]
  · have hleaders := leaders_eq hs h
    exact ⟨_, hleaders, ascendingSet_strict _, mem_leaders_iff_leader hs h hleaders⟩

/-- A stray target anywhere makes the first one of them known. -/
theorem leaders_of_leadsOutside {i : Instruction} (hi : i ∈ s.instructions) {t : Int}
    (hout : LeadsOutside s.length i t) : ∃ p j u, s.FirstStray p j u ∧ j.index.toInt = p ∧
      s.leaders = .error (.malformedTarget j.index u s.length) := by
  cases hstray : s.strayJump? with
  | none =>
    obtain ⟨hjump, htarget, hrange⟩ := hout
    obtain ⟨u, hu, hinside⟩ := targetsInside_of_none hstray i hi hjump
    obtain rfl : t = u := Option.some.inj (htarget.symm.trans hu)
    exact absurd hinside hrange
  | some j =>
    obtain ⟨p, hp, hfirst, hearlier⟩ := strayJump?_eq_some hstray
    exact ⟨p, j, j.goal, ⟨hp, hfirst, hearlier⟩, index_eq hp, leaders_of_stray hstray⟩

/-- Every block of a cut at the leaders starts at a leader, and each leader starts a block. -/
theorem blockStarts_leaders (hs : s.length ≠ 0) (h : TargetsInside s.instructions)
    (hleaders : s.leaders = .ok leaders) : s.blockStarts leaders = leaders := by
  have hrange : ∀ x, x ∈ 0 :: leaders.filter s.inRange ↔ x ∈ leaders := by
    intro x
    rw [List.mem_cons, List.mem_filter]
    constructor
    · rintro (rfl | ⟨hx, _⟩)
      · exact (mem_leaders hs h hleaders).mpr (.inl rfl)
      · exact hx
    · intro hx
      exact .inr ⟨hx, inRange_iff.mpr (leader_inRange hs h hleaders hx)⟩
  rw [leaders_eq hs h] at hleaders
  obtain rfl := Except.ok.inj hleaders
  apply ascendingSet_congr
  intro x
  rw [hrange, mem_ascendingSet]

/-- Where all targets lie inside the stream, the leaders are listed in ascending order and without
repeats, and nothing else is. Where some target lies outside, the first branch or jump with such a
target is refused. -/
theorem leaders_exact (s : Stream) :
    (TargetsInside s.instructions → ∃ leaders, s.leaders = .ok leaders ∧
      leaders.Pairwise (· < ·) ∧
      ∀ x, x ∈ leaders ↔ s.Leader x) ∧
    ((∃ i ∈ s.instructions, ∃ t, LeadsOutside s.length i t) → ∃ p j u, s.FirstStray p j u ∧
      j.index.toInt = p ∧ s.leaders = .error (.malformedTarget j.index u s.length)) := by
  refine ⟨leaders_of_inside, ?_⟩
  rintro ⟨i, hi, t, hout⟩
  exact leaders_of_leadsOutside hi hout

/-- A branch to its own successor, and two jumps that lead outside on either side. -/
def astray : Stream where
  instructions :=
    [{ kind := .conditionalJump, index := .flag false, target := some 1 },
      { kind := .unconditionalJump, index := .number 1, target := some (-1) },
      { kind := .unconditionalJump, index := .number 2, target := some 3 }]
  contract := rfl

/-- The loop has its start, a target and the indices after its jumps as leaders. Of the two stray
jumps the one that stands before is refused. -/
theorem whileLoop_and_astray_leaders :
    (whileLoop.leaders = .ok [0, 2, 3] ∧ ∀ x, x ∈ [0, 2, 3] ↔ whileLoop.Leader x) ∧
    ∃ j, astray.FirstStray 1 j (-1) ∧
      astray.leaders = .error (.malformedTarget (.number 1) (-1) 3) := by
  constructor
  · obtain ⟨leaders, hleaders, _, hexact⟩ := (leaders_exact whileLoop).1 whileLoop_targetsInside
    obtain rfl : [0, 2, 3] = leaders := Except.ok.inj hleaders
    exact ⟨hleaders, hexact⟩
  · have hrefused : astray.leaders = .error (.malformedTarget (.number 1) (-1) 3) := rfl
    obtain ⟨p, j, u, hfirst, hindex, herror⟩ := (leaders_exact astray).2
      ⟨_, List.mem_cons_of_mem _ (List.mem_cons_of_mem _ List.mem_cons_self), 3, rfl, rfl,
        by decide⟩
    obtain ⟨hnumber, rfl, _⟩ : Index.number 1 = j.index ∧ -1 = u ∧ _ := by
      simpa using Except.error.inj (hrefused.symm.trans herror)
    rw [← hnumber] at hindex
    obtain rfl : 1 = p := Int.ofNat.inj hindex
    exact ⟨j, hfirst, hrefused⟩

end FlowGraph.Stream
