import FlowGraph.Number.Integer
import FlowGraph.Text.Case

/-!
Settings taken from environment variables, each with a default of its own.
-/
namespace FlowGraph

structure Settings where
  logLevel : String := "INFO"
  logRenderer : String := "console"
  workers : Int := 4
  validate : Bool := true
  deriving DecidableEq, Repr

namespace Settings

def standard : Settings := {}

/-- Reads the settings. Only the number of workers can be malformed. -/
def ofEnvironment (lookup : String → Option String) : Except Number.IntegerFault Settings := do
  let workers ← match lookup "BYTECODE_CFG_WORKERS" with
    | some text => Number.readInteger 10 (Text.codes text)
    | none => .ok standard.workers
  .ok {
    logLevel := (lookup "BYTECODE_CFG_LOG_LEVEL").getD standard.logLevel
    logRenderer := (lookup "BYTECODE_CFG_LOG_RENDERER").getD standard.logRenderer
    workers
    validate := match lookup "BYTECODE_CFG_VALIDATE" with
      | some text => Text.lower text == "true"
      | none => standard.validate }

end Settings

/-- The version of the analysis. -/
def version : String := "0.1.0"

end FlowGraph
