import FlowGraph.Failure

/-!
Events: what the analysis reports as it goes along. Each has a level, a title and named fields.
-/
namespace FlowGraph

inductive Level
  | debug
  | info
  | warning
  deriving DecidableEq, Repr

def Level.name : Level → String
  | .debug => "debug"
  | .info => "info"
  | .warning => "warning"

inductive Event
  | leadersDetected (count length : Nat)
  | streamPartitioned (blocks length : Nat)
  | edgesConnected (edges blocks : Nat)
  | graphValidated (blocks edges unreachable : Nat)
  | validationFailed (invariants : List String)
  | unreachableBlocks (method : Option String) (ids : List Int)
  | validationSkipped (method : Option String)
  | graphBuilt (method : Option String) (instructions blocks edges : Nat)
  | methodUnanalyzable (method error reason : String)
  | batchFinished (methods failed : Nat) (workers : Int)
  deriving DecidableEq, Repr

namespace Event

def level : Event → Level
  | unreachableBlocks .. => .info
  | batchFinished .. => .info
  | validationSkipped _ => .warning
  | methodUnanalyzable .. => .warning
  | _ => .debug

def title : Event → String
  | leadersDetected .. => "Leaders detected"
  | streamPartitioned .. => "Stream partitioned"
  | edgesConnected .. => "Edges connected"
  | graphValidated .. => "Graph validated"
  | validationFailed _ => "Graph validation failed"
  | unreachableBlocks .. => "Unreachable blocks"
  | validationSkipped _ => "Graph validation skipped"
  | graphBuilt .. => "Control flow graph built"
  | methodUnanalyzable .. => "Method is unanalyzable"
  | batchFinished .. => "Batch construction finished"

def number (n : Nat) : Value := .int n

def methodField (method : Option String) : String × Value :=
  ("method", (method.map Value.text).getD .null)

def fields : Event → List (String × Value)
  | leadersDetected count length => [("count", number count), ("stream_length", number length)]
  | streamPartitioned blocks length =>
    [("blocks", number blocks), ("stream_length", number length)]
  | edgesConnected edges blocks => [("edges", number edges), ("blocks", number blocks)]
  | graphValidated blocks edges unreachable =>
    [("blocks", number blocks), ("edges", number edges), ("unreachable", number unreachable)]
  | validationFailed invariants => [("invariants", .list (invariants.map .text))]
  | unreachableBlocks method ids => [methodField method, ("block_ids", .list (ids.map .int))]
  | validationSkipped method => [methodField method]
  | graphBuilt method instructions blocks edges =>
    [methodField method, ("instructions", number instructions), ("blocks", number blocks),
      ("edges", number edges)]
  | methodUnanalyzable method error reason =>
    [("method", .text method), ("error", .text error), ("reason", .text reason)]
  | batchFinished methods failed workers =>
    [("methods", number methods), ("failed", number failed), ("workers", .int workers)]

end Event

end FlowGraph
