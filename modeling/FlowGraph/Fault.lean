import FlowGraph.Failure
import FlowGraph.Position

/-!
Ways an operation on a stream or graph can fail: a reason of the analysis, or a request that the
data at hand cannot serve.
-/
namespace FlowGraph

/-- A change to the length of a list of edges. -/
inductive ListChange
  | append
  | remove
  deriving DecidableEq, Repr

inductive Fault
  | failure (reason : Failure)
  | noBlock
  | noEdge
  | noInstruction
  /-- A position that does not fit a position's size. -/
  | hugePosition
  | outsideStream (index : Int) (length : Nat)
  | noEntry
  | notListed
  | sealedList (change : ListChange)
  | negativeLength
  | hugeLength
  | zeroStep
  | notInStream
  | unknownKind (text : Value)
  | unknownEdgeKind (text : Value)
  | tooFewWorkers

namespace Fault

def message : Fault → String
  | failure reason => reason.message
  | noBlock => "list index out of range"
  | noEdge => "list index out of range"
  | noInstruction => "tuple index out of range"
  | hugePosition => "cannot fit 'int' into an index-sized integer"
  | outsideStream index length => s!"Instruction index {index} outside stream of length {length}"
  | noEntry => "0"
  | notListed => "list.remove(x): x not in list"
  | sealedList .append => "'tuple' object has no attribute 'append'"
  | sealedList .remove => "'tuple' object has no attribute 'remove'"
  | negativeLength => "__len__() should return >= 0"
  | hugeLength => "cannot fit 'int' into an index-sized integer"
  | zeroStep => "slice step cannot be zero"
  | notInStream => ""
  | unknownKind text => text.literal ++ " is not a valid InstructionKind"
  | unknownEdgeKind text => text.literal ++ " is not a valid EdgeKind"
  | tooFewWorkers => "max_workers must be greater than 0"

/-- The fault of a position at which there is nothing, given the fault for one of the right
size. -/
def ofPosition (i : Int) (fault : Fault) : Fault :=
  if Position.fits i then fault else hugePosition

end Fault

end FlowGraph
