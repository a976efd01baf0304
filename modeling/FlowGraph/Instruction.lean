import FlowGraph.Kind
import FlowGraph.Value

/-!
Decoded instructions. An instruction declares its own index, and a branch or jump the index it
leads to. The operation name and source line are for the reader only: they never shape a graph.
-/
namespace FlowGraph

/-- A declared index. A listing may spell zero and one as truth values, and they keep that
spelling. -/
inductive Index
  | missing
  | number (i : Int)
  | flag (b : Bool)
  deriving DecidableEq, Repr

namespace Index

def toInt? : Index → Option Int
  | missing => none
  | number i => some i
  | flag b => some (Value.numberOfBool b)

/-- The index as a number; minus one, which is no position, when none is declared. -/
def toInt (i : Index) : Int := i.toInt?.getD (-1)

def toValue : Index → Value
  | missing => .null
  | number i => .int i
  | flag b => .bool b

def text (i : Index) : String := i.toValue.literal

end Index

structure Instruction where
  kind : Kind
  index : Index
  target : Option Int := none
  opcode : Value := .null
  line : Value := .null

namespace Instruction

/-- The operation name if there is one, else the kind. -/
def label (i : Instruction) : String :=
  if i.opcode.isTrue then i.opcode.display else i.kind.name

def text (i : Instruction) : String :=
  let index := i.index.text
  let label := i.label
  match i.target with
  | some target => s!"Instruction({index}: {label} -> {target})"
  | none => s!"Instruction({index}: {label})"

def same (a b : Instruction) : Bool :=
  a.kind == b.kind && a.index.toInt? == b.index.toInt? && a.target == b.target &&
    a.opcode.same b.opcode && a.line.same b.line

/-- The index a branch or jump leads to; minus one, which is no position, for the rest. -/
def goal (i : Instruction) : Int := i.target.getD (-1)

end Instruction

end FlowGraph
