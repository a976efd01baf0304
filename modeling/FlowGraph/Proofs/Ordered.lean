import FlowGraph.Ordered
import Mathlib.Data.List.Sort

/-!
Sorting by a test is insertion sort by the relation that the test decides. Two lists sorted by
keys that tell their members apart are therefore equal exactly when they hold the same members
equally often. Sets kept as strictly ascending lists hold the members they were made of.
-/
namespace FlowGraph

/-- Where not all members of a list are alike in something, there is a first one that is not. -/
theorem exists_first_not {α : Type} {P : α → Prop} {xs : List α} (h : ¬ ∀ x ∈ xs, P x) :
    ∃ before x after, xs = before ++ x :: after ∧ (∀ y ∈ before, P y) ∧ ¬ P x := by
  induction xs with
  | nil => exact absurd (List.forall_mem_nil P) h
  | cons x xs ih =>
    by_cases hx : P x
    · have hrest : ¬ ∀ y ∈ xs, P y := fun hall => h (List.forall_mem_cons.mpr ⟨hx, hall⟩)
      obtain ⟨before, y, after, hsplit, hbefore, hy⟩ := ih hrest
      exact ⟨x :: before, y, after, congrArg (x :: ·) hsplit,
        List.forall_mem_cons.mpr ⟨hx, hbefore⟩, hy⟩
    · exact ⟨[], x, xs, rfl, List.forall_mem_nil P, hx⟩

section Sorting

variable {α : Type} {le : α → α → Bool}

theorem insertBy_eq_orderedInsert (x : α) (ys : List α) :
    insertBy le x ys = ys.orderedInsert (fun a b => le a b = true) x := by
  induction ys with
  | nil => rfl
  | cons y ys ih => rw [insertBy, List.orderedInsert_cons, ih]

theorem sortBy_eq_insertionSort (xs : List α) :
    sortBy le xs = xs.insertionSort fun a b => le a b = true := by
  induction xs with
  | nil => rfl
  | cons x xs ih => rw [sortBy, List.insertionSort_cons, ih, insertBy_eq_orderedInsert]

/-- Sorted by keys that tell its members apart, a list shows how often each of them occurs and
nothing else. -/
theorem sortBy_eq_iff_perm {β : Type} [LinearOrder β] {key : α → β}
    (hkey : Function.Injective key) (xs ys : List α) :
    sortBy (fun a b => decide (key a ≤ key b)) xs =
      sortBy (fun a b => decide (key a ≤ key b)) ys ↔ xs.Perm ys := by
  let before (a b : α) : Prop := key a ≤ key b
  have : Std.Total before := ⟨fun a b => le_total (key a) (key b)⟩
  have : IsTrans α before := ⟨fun a b c => le_trans⟩
  have hperm := List.perm_insertionSort before
  have hordered := List.pairwise_insertionSort before
  simp only [sortBy_eq_insertionSort, decide_eq_true_eq]
  constructor
  · intro heq
    exact (hperm xs).symm.trans (heq ▸ hperm ys)
  · intro hsame
    have hsorted := (hperm xs).trans (hsame.trans (hperm ys).symm)
    exact hsorted.eq_of_pairwise (fun a b _ _ hab hba => hkey (le_antisymm hab hba))
      (hordered xs) (hordered ys)

end Sorting

theorem ascending_eq_iff_perm (xs ys : List Int) : ascending xs = ascending ys ↔ xs.Perm ys :=
  sortBy_eq_iff_perm Function.injective_id xs ys

@[simp] theorem mem_insertNew {x z : Int} {ys : List Int} :
    z ∈ insertNew x ys ↔ z = x ∨ z ∈ ys := by
  induction ys with
  | nil => simp [insertNew]
  | cons y ys ih =>
    unfold insertNew
    split
    · simp
    · split
      case isTrue hxy => simp [hxy]
      case isFalse => simp only [List.mem_cons, ih, or_left_comm]

@[simp] theorem mem_ascendingSet {z : Int} {xs : List Int} : z ∈ ascendingSet xs ↔ z ∈ xs := by
  induction xs with
  | nil => simp [ascendingSet]
  | cons x xs ih => simp [ascendingSet, ih]

theorem insertNew_strict (x : Int) (ys : List Int) (hys : ys.Pairwise (· < ·)) :
    (insertNew x ys).Pairwise (· < ·) := by
  induction ys with
  | nil => exact List.pairwise_singleton _ x
  | cons y ys ih =>
    obtain ⟨hy, hrest⟩ := List.pairwise_cons.mp hys
    unfold insertNew
    split
    case isTrue hxy =>
      refine List.pairwise_cons.mpr ⟨?_, hys⟩
      intro z hz
      rcases List.mem_cons.mp hz with rfl | hz
      · exact hxy
      · have := hy z hz
        omega
    case isFalse hxy =>
      split
      · exact hys
      case isFalse hne =>
        refine List.pairwise_cons.mpr ⟨?_, ih hrest⟩
        intro z hz
        rcases mem_insertNew.mp hz with rfl | hz
        · omega
        · exact hy z hz

theorem ascendingSet_strict (xs : List Int) : (ascendingSet xs).Pairwise (· < ·) := by
  induction xs with
  | nil => exact List.Pairwise.nil
  | cons x xs ih => exact insertNew_strict x _ ih

/-- A set does not show in which order, how often or by which list its members were given. -/
theorem ascendingSet_congr {xs ys : List Int} (h : ∀ z, z ∈ xs ↔ z ∈ ys) :
    ascendingSet xs = ascendingSet ys := by
  have hxs := ascendingSet_strict xs
  have hys := ascendingSet_strict ys
  have hperm : (ascendingSet xs).Perm (ascendingSet ys) := by
    apply (List.perm_ext_iff_of_nodup (hxs.imp Int.ne_of_lt) (hys.imp Int.ne_of_lt)).mpr
    intro z
    rw [mem_ascendingSet, mem_ascendingSet, h]
  apply hperm.eq_of_pairwise _ hxs hys
  intro a b _ _ hab hba
  omega

@[simp] theorem mem_distinct {z : Int} {xs : List Int} : z ∈ distinct xs ↔ z ∈ xs := by
  induction xs with
  | nil => simp [distinct]
  | cons x xs ih =>
    by_cases hz : z = x
    · simp [distinct, hz]
    · simp [distinct, hz, ih]

theorem nodup_distinct (xs : List Int) : (distinct xs).Nodup := by
  induction xs with
  | nil => exact List.Pairwise.nil
  | cons x xs ih => exact List.nodup_cons.mpr ⟨by simp, ih.sublist List.filter_sublist⟩

/-- Dropping repeats among the keys of an ordered list puts them in the order of their first
owners. -/
theorem distinct_pairwise {α : Type} {R : α → α → Prop} (key : α → Int) {xs : List α}
    (hxs : xs.Pairwise R) :
    (distinct (xs.map key)).Pairwise fun c d => ∃ x ∈ xs, key x = c ∧ ∀ y ∈ xs, key y = d →
      R x y := by
  induction xs with
  | nil => exact List.Pairwise.nil
  | cons x xs ih =>
    obtain ⟨hx, hrest⟩ := List.pairwise_cons.mp hxs
    refine List.pairwise_cons.mpr ⟨?_, ?_⟩
    · intro d hd
      have hne : d ≠ key x := by simpa using (List.mem_filter.mp hd).2
      refine ⟨x, List.mem_cons_self, rfl, ?_⟩
      intro y hy hkey
      rcases List.mem_cons.mp hy with rfl | hy
      · exact absurd hkey.symm hne
      · exact hx y hy
    · apply ((ih hrest).filter _).imp_of_mem
      rintro c d _ hd ⟨z, hz, hkey, hfirst⟩
      have hne : d ≠ key x := by simpa using (List.mem_filter.mp hd).2
      refine ⟨z, List.mem_cons_of_mem x hz, hkey, ?_⟩
      intro y hy hkey'
      rcases List.mem_cons.mp hy with rfl | hy
      · exact absurd hkey'.symm hne
      · exact hfirst y hy hkey'

theorem distinct_strict {xs : List Int} (hxs : xs.Pairwise (· ≤ ·)) :
    (distinct xs).Pairwise (· < ·) := by
  have hfirst := distinct_pairwise id hxs
  rw [List.map_id] at hfirst
  apply (hfirst.and (nodup_distinct xs)).imp_of_mem
  rintro c d _ hd ⟨⟨x, _, rfl, hle⟩, hne⟩
  have := hle d (mem_distinct.mp hd) rfl
  dsimp at this hne ⊢
  omega

end FlowGraph
