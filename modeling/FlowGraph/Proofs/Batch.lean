import FlowGraph.Batch
import FlowGraph.Proofs.Build
import Mathlib.Data.List.Forall2

/-!
Building many methods never fails as a whole. A build ends in a graph or in a reason of the
analysis, so every method has a result of its own, which is what building it alone comes to.
-/
namespace FlowGraph

/-- The result of a method with a given name and body: what building the body by itself comes
to. -/
structure MethodResult.Answers (r : MethodResult) (name : String) (body : List Instruction) :
    Prop where
  method : r.method = name
  outcome : buildGraph body { method := some name } = r.outcome.mapError .failure

/-- Whatever a build fails with is a reason of the analysis. -/
theorem exists_reason {body : List Instruction} {name : String} {fault : Fault}
    (h : buildGraph body { method := some name } = .error fault) :
    ∃ reason, fault = .failure reason := by
  obtain ⟨outcome, houtcome, hbuild⟩ := exists_outcome body
  obtain rfl : outcome = .error fault := (hbuild (some name) _).symm.trans h
  obtain ⟨reason, hreason, _⟩ := houtcome.name_of_error
  exact ⟨reason, hreason⟩

theorem buildMethod_ok (name : String) (body : List Instruction) :
    ∃ built, buildMethod name body = .ok built ∧ built.1.Answers name body := by
  cases hs : Stream.ofList body with
  | error reason =>
    simp only [buildMethod, hs]
    exact ⟨_, rfl, rfl, by simp [buildGraph, hs, Except.mapError]⟩
  | ok s =>
    have hbuild : buildGraph body { method := some name } =
        (s.build { method := some name }).outcome := by
      simp [buildGraph, hs]
    cases houtcome : (s.build { method := some name }).outcome with
    | ok g =>
      simp only [buildMethod, hs, houtcome]
      exact ⟨_, rfl, rfl, hbuild.trans houtcome⟩
    | error fault =>
      obtain ⟨reason, rfl⟩ := exists_reason (hbuild.trans houtcome)
      simp only [buildMethod, hs, houtcome]
      exact ⟨_, rfl, rfl, hbuild.trans houtcome⟩

theorem exists_rel_of_mem {α β : Type} {R : α → β → Prop} {xs : List α} {ys : List β}
    (h : List.Forall₂ R xs ys) {y : β} (hy : y ∈ ys) : ∃ x ∈ xs, R x y := by
  induction h with
  | nil => cases hy
  | @cons x y' xs ys hxy _ ih =>
    rcases List.mem_cons.mp hy with rfl | hy
    · exact ⟨x, List.mem_cons_self, hxy⟩
    · obtain ⟨z, hz, hrel⟩ := ih hy
      exact ⟨z, List.mem_cons_of_mem x hz, hrel⟩

theorem workerCount_nonneg {asked : Option Int} (h : ∀ n, asked = some n → 0 ≤ n) :
    0 ≤ workerCount asked := by
  unfold workerCount
  cases asked with
  | none => decide
  | some n =>
    have hn := h n rfl
    dsimp only
    split
    · decide
    · exact hn

/-- Unless fewer than no workers are asked for, a batch is what its methods come to one by one. -/
theorem buildAll_eq (methods : List (String × List Instruction)) {asked : Option Int}
    (hasked : ∀ n, asked = some n → 0 ≤ n)
    {built : String × List Instruction → MethodResult × List Event}
    (hbuilt : ∀ m, buildMethod m.1 m.2 = .ok (built m)) : buildAll methods asked = .ok
      { results := methods.map fun m => (built m).1
        events := methods.flatMap (fun m => (built m).2) ++ [.batchFinished methods.length
          (methods.countP fun m => !(built m).1.ok) (workerCount asked)] } := by
  have hworkers : ¬ workerCount asked < 0 := Int.not_lt.mpr (workerCount_nonneg hasked)
  have hmap : methods.mapM (fun m => buildMethod m.1 m.2) = .ok (methods.map built) :=
    mapM_eq_map methods fun m _ => hbuilt m
  simp only [buildAll, hworkers, if_false, hmap, bind, Except.bind, List.map_map,
    List.flatMap_map, List.length_map, List.countP_map]
  rfl

/-- Unless fewer than no workers are asked for, every method has its result, in order. -/
theorem buildAll_ok (methods : List (String × List Instruction)) {asked : Option Int}
    (hasked : ∀ n, asked = some n → 0 ≤ n) : ∃ batch, buildAll methods asked = .ok batch ∧
      List.Forall₂ (fun m r => r.Answers m.1 m.2) methods batch.results := by
  choose built hbuilt hanswers using fun m : String × List Instruction => buildMethod_ok m.1 m.2
  refine ⟨_, buildAll_eq methods hasked hbuilt, ?_⟩
  rw [List.forall₂_map_right_iff, List.forall₂_same]
  exact fun m _ => hanswers m

end FlowGraph
