import FlowGraph.Build

/-!
Building many methods. Each is built by itself, so that a method that cannot be analysed says so
in its own result and leaves the others alone. Results come in the order of the methods.
-/
namespace FlowGraph

structure MethodResult where
  method : String
  outcome : Except Failure Graph

def MethodResult.ok (r : MethodResult) : Bool :=
  match r.outcome with
  | .ok _ => true
  | .error _ => false

structure Batch where
  results : List MethodResult
  events : List Event

/-- Methods by name: a repeated name keeps its first place and takes the last body. -/
def putMethod {α : Type} (methods : List (String × α)) (name : String) (body : α) :
    List (String × α) :=
  if methods.any fun m => m.1 == name then
    methods.map fun m => if m.1 == name then (m.1, body) else m
  else methods ++ [(name, body)]

/-- Builds one method; only a fault that is no reason of the analysis escapes. -/
def buildMethod (method : String) (instructions : List Instruction) :
    Except Fault (MethodResult × List Event) :=
  let failed := fun (reason : Failure) (events : List Event) =>
    let event := Event.methodUnanalyzable method reason.name reason.message
    ((⟨method, .error reason⟩ : MethodResult), events ++ [event])
  match Stream.ofList instructions with
  | .error reason => .ok (failed reason [])
  | .ok s =>
    let record := s.build { method := some method }
    match record.outcome with
    | .ok g => .ok (⟨method, .ok g⟩, record.events)
    | .error (.failure reason) => .ok (failed reason record.events)
    | .error fault => .error fault

/-- The number of workers asked for, or the standard one for none or zero. -/
def workerCount (asked : Option Int) : Int :=
  match asked with
  | none => Settings.standard.workers
  | some n => if n = 0 then Settings.standard.workers else n

/-- The methods carry different names. The events are in order of the methods. -/
def buildAll (methods : List (String × List Instruction)) (asked : Option Int) :
    Except Fault Batch :=
  let workers := workerCount asked
  if workers < 0 then .error .tooFewWorkers
  else do
    let built ← methods.mapM fun m => buildMethod m.1 m.2
    let results := built.map (·.1)
    let failed := results.countP fun r => !r.ok
    let finished := Event.batchFinished results.length failed workers
    .ok { results, events := built.flatMap (·.2) ++ [finished] }

end FlowGraph
