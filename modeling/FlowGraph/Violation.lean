/-!
Violations of a graph's invariants, as a report lists them: which invariant, the blocks and edges
at fault, and a sentence of detail.
-/
namespace FlowGraph

inductive Invariant
  | singleEntry
  | partition
  | jumpNotLast
  | terminatorArity
  | branchKinds
  | edgeEndpoints
  | incomingMirror
  /-- An invariant that somebody else checks. -/
  | named (name : String)
  deriving DecidableEq, Repr

namespace Invariant

def name : Invariant → String
  | singleEntry => "single-entry"
  | partition => "partition"
  | jumpNotLast => "jump-not-last"
  | terminatorArity => "terminator-arity"
  | branchKinds => "branch-kinds"
  | edgeEndpoints => "edge-endpoints"
  | incomingMirror => "incoming-mirror"
  | named text => text

end Invariant

structure Violation where
  invariant : Invariant
  blocks : List Int := []
  edges : List Int := []
  detail : String := ""
  deriving DecidableEq, Repr

end FlowGraph
