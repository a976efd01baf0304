import FlowGraph.Proofs.Batch
import FlowGraph.Proofs.Dangling

/-!
Methods of a batch are built in isolation. What becomes of a method depends on its name and body
alone, and it is a graph just when the body keeps the contract, leads nowhere outside and ends in
a return or throw. A build says nothing that could be taken for the warning about a method without
a graph, so that one such warning stands for each failed result, and the last event of the batch
counts them.
-/
namespace FlowGraph

def Event.condemns (e : Event) : Bool :=
  e.level == .warning && e.title == "Method is unanalyzable"

def Stage.Quiet (stage : Stage) : Prop := ∀ e ∈ stage.events, e.condemns = false

theorem Stage.Quiet.andThen {stage : Stage} {next : Graph → Stage} (h : stage.Quiet)
    (hnext : ∀ g, (next g).Quiet) : (stage.andThen next).Quiet := by
  unfold Stage.andThen
  split
  · exact h
  · intro e he
    rcases List.mem_append.mp he with hearlier | hlater
    · exact h e hearlier
    · exact hnext _ e hlater

namespace Graph

variable {g : Graph}

theorem terminatorStage_quiet : g.terminatorStage.Quiet := List.forall_mem_nil _

theorem connectStage_quiet : g.connectStage.Quiet := by
  unfold connectStage
  split
  · exact List.forall_mem_nil _
  · exact List.forall_mem_singleton.mpr rfl

theorem extraStage_quiet (extra : List Arc) : (g.extraStage extra).Quiet := List.forall_mem_nil _

theorem reportEvent_quiet (r : Report) : (g.reportEvent r).condemns = false := by
  unfold reportEvent
  split
  · rfl
  · rfl

theorem validationStage_quiet (options : BuildOptions) : (g.validationStage options).Quiet := by
  unfold validationStage
  split
  · split
    · exact List.forall_mem_nil _
    · refine List.forall_mem_cons.mpr ⟨reportEvent_quiet _, ?_⟩
      split
      · exact List.forall_mem_singleton.mpr rfl
      · exact List.forall_mem_nil _
  · exact List.forall_mem_singleton.mpr rfl

theorem freezeStage_quiet (options : BuildOptions) : (g.freezeStage options).Quiet := by
  unfold freezeStage
  split
  · exact List.forall_mem_nil _
  · exact List.forall_mem_singleton.mpr rfl

theorem complete_quiet (options : BuildOptions) : (g.complete options).Quiet :=
  terminatorStage_quiet
    |>.andThen (fun _ => connectStage_quiet)
    |>.andThen (fun _ => extraStage_quiet _)
    |>.andThen (fun _ => validationStage_quiet _)
    |>.andThen (fun _ => freezeStage_quiet _)

end Graph

theorem Stream.build_quiet (s : Stream) (options : BuildOptions) :
    ∀ e ∈ (s.build options).events, e.condemns = false := by
  have hleaders : ∀ leaders, ∀ e ∈ s.leaderEvents leaders, e.condemns = false := by
    intro leaders
    unfold leaderEvents
    split
    · exact List.forall_mem_nil _
    · exact List.forall_mem_singleton.mpr rfl
  unfold build
  split
  · exact List.forall_mem_nil _
  · split
    · exact hleaders _
    · refine List.forall_mem_append.mpr ⟨hleaders _, ?_⟩
      exact List.forall_mem_cons.mpr ⟨rfl, Graph.complete_quiet options⟩

/-- One warning is given for a method that fails, and none for another. -/
theorem buildMethod_condemns {name : String} {body : List Instruction}
    {built : MethodResult × List Event} (h : buildMethod name body = .ok built) :
    built.2.countP Event.condemns = if built.1.ok then 0 else 1 := by
  unfold buildMethod at h
  dsimp only at h
  split at h
  case h_1 reason _ =>
    obtain rfl := Except.ok.inj h
    rfl
  case h_2 s _ =>
    have hquiet : (s.build { method := some name }).events.countP Event.condemns = 0 :=
      List.countP_eq_zero.mpr fun e he => by simp [s.build_quiet _ e he]
    split at h
    case h_1 g _ =>
      obtain rfl := Except.ok.inj h
      exact hquiet
    case h_2 reason _ =>
      obtain rfl := Except.ok.inj h
      rw [List.countP_append, hquiet]
      rfl
    case h_3 => cases h

theorem countP_condemns {built : String × List Instruction → MethodResult × List Event}
    (h : ∀ m, buildMethod m.1 m.2 = .ok (built m)) (methods : List (String × List Instruction)) :
    (methods.flatMap fun m => (built m).2).countP Event.condemns =
      methods.countP fun m => !(built m).1.ok := by
  induction methods with
  | nil => rfl
  | cons m rest ih =>
    rw [List.flatMap_cons, List.countP_append, ih, buildMethod_condemns (h m), List.countP_cons]
    cases (built m).1.ok <;> simp [Nat.add_comm]

structure Analyzable (body : List Instruction) : Prop where
  keeps : KeepsContract body
  inside : TargetsInside body
  ends : EndsInExit body

/-- The outcome of a build is a graph just when the list can be analysed. -/
theorem Outcome.exists_graph_iff {body : List Instruction} {outcome : Except Fault Graph}
    (h : Outcome body outcome) : (∃ g, outcome = .ok g) ↔ Analyzable body := by
  cases h with
  | breach hi hbreach _ =>
    simp only [reduceCtorEq, exists_false, false_iff]
    intro hfine
    exact hfine.keeps _ _ hi _ hbreach
  | target _ hi hstray _ =>
    simp only [reduceCtorEq, exists_false, false_iff]
    intro hfine
    obtain ⟨hjump, htarget, hout⟩ := hstray
    obtain ⟨t, ht, hrange⟩ := hfine.inside _ (List.mem_of_getElem? hi) hjump
    obtain rfl := Option.some.inj (htarget.symm.trans ht)
    exact hout hrange
  | empty hnil =>
    simp only [reduceCtorEq, exists_false, false_iff]
    intro hfine
    obtain ⟨last, hlast, _⟩ := hfine.ends
    simp [hnil] at hlast
  | terminator _ _ hlast hstays =>
    simp only [reduceCtorEq, exists_false, false_iff]
    intro hfine
    obtain ⟨last, hlast', hkind⟩ := hfine.ends
    obtain rfl := Option.some.inj (hlast.symm.trans hlast')
    exact hstays hkind
  | graph hkeeps hinside hend _ _ _ => exact iff_of_true ⟨_, rfl⟩ ⟨hkeeps, hinside, hend⟩

/-- A method has a graph if its body can be analysed and else a reason, never both. -/
theorem MethodResult.Answers.decides {r : MethodResult} {name : String} {body : List Instruction}
    (h : r.Answers name body) : ((∃ g, r.outcome = .ok g) ↔ Analyzable body) ∧
      ((∃ reason, r.outcome = .error reason) ↔ ¬ Analyzable body) := by
  obtain ⟨outcome, houtcome, hbuild⟩ := exists_outcome body
  have hsame : r.outcome.mapError .failure = outcome :=
    h.outcome.symm.trans (hbuild (some name) _)
  rw [← houtcome.exists_graph_iff, ← hsame]
  cases r.outcome with
  | ok g => simp [Except.mapError]
  | error reason => simp [Except.mapError]

/-- There is one result for each name and body, and every batch gives each of its methods that
result, in order, whatever the other methods are and however many workers build them. It is what
building the body alone comes to. With one worker, the last event counts the failed results, and
as many warnings have been given. -/
theorem batch_isolation : ∃ solo : String × List Instruction → MethodResult,
    (∀ m, (solo m).Answers m.1 m.2 ∧ ((∃ g, (solo m).outcome = .ok g) ↔ Analyzable m.2) ∧
      ((∃ reason, (solo m).outcome = .error reason) ↔ ¬ Analyzable m.2)) ∧
    ∀ methods asked, (∀ n, asked = some n → 0 ≤ n) → ∃ batch, buildAll methods asked = .ok batch ∧
      batch.results = methods.map solo ∧ batch.results.map (·.method) = methods.map (·.1) ∧
      (asked = some 1 → ∃ last failed, batch.events.getLast? = some last ∧
        last.title = "Batch construction finished" ∧
        last.fields.lookup "failed" = some (Event.number failed) ∧
        failed = batch.results.countP (fun r => !r.ok) ∧
        failed = batch.events.countP Event.condemns) := by
  choose built hbuilt hanswers using fun m : String × List Instruction => buildMethod_ok m.1 m.2
  refine ⟨fun m => (built m).1, fun m => ⟨hanswers m, (hanswers m).decides⟩, ?_⟩
  intro methods asked hasked
  refine ⟨_, buildAll_eq methods hasked hbuilt, rfl, ?_, ?_⟩
  · rw [List.map_map]
    exact List.map_congr_left fun m _ => (hanswers m).method
  · intro _
    refine ⟨_, _, List.getLast?_concat, rfl, rfl, ?_, ?_⟩
    · rw [List.countP_map]
      rfl
    · rw [List.countP_append, countP_condemns hbuilt]
      rfl

/-- A loop is built alike beside a method without instructions and behind one that does not
end. -/
theorem whileLoop_isolated : ∃ batch other,
    buildAll [("f", Stream.whileLoop.instructions), ("g", [])] (some 1) = .ok batch ∧
    buildAll [("h", Stream.openLoop.instructions), ("f", Stream.whileLoop.instructions)] none =
      .ok other ∧
    batch.results[0]? = other.results[1]? ∧ batch.results.map (·.ok) = [true, false] ∧
    batch.events.countP Event.condemns = 1 := by
  obtain ⟨solo, _, hbatch⟩ := batch_isolation
  obtain ⟨batch, hfirst, hresults, _, hcount⟩ :=
    hbatch [("f", Stream.whileLoop.instructions), ("g", [])] (some 1) (by simp)
  obtain ⟨other, hsecond, hresults', _⟩ :=
    hbatch [("h", Stream.openLoop.instructions), ("f", Stream.whileLoop.instructions)] none
      (by simp)
  obtain ⟨last, failed, _, _, _, hfailed, hwarned⟩ := hcount rfl
  have hok : batch.results.map (·.ok) = [true, false] := by
    obtain rfl := Except.ok.inj hfirst
    rfl
  refine ⟨batch, other, hfirst, hsecond, ?_, hok, ?_⟩
  · rw [hresults, hresults']
    rfl
  · rw [← hwarned, hfailed]
    obtain rfl := Except.ok.inj hfirst
    rfl

end FlowGraph
