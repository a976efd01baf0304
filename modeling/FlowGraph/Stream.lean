import FlowGraph.Fault

/-!
Instruction streams. A stream is a list of instructions that keeps the decoder's contract: each
instruction's index is its position, branches and jumps have a target, and nothing else does.
Whether a target lies within the stream is a matter for the leaders.
-/
namespace FlowGraph

/-- What is wrong with an instruction at a position, if anything; the index is judged first. -/
def breachAt (position : Nat) (i : Instruction) : Option Breach :=
  if i.index.toInt? ≠ some (position : Int) then some (.misplaced i.index)
  else if i.kind.isJump ∧ i.target.isNone then some (.missingTarget i.kind)
  else if ¬ i.kind.isJump ∧ i.target.isSome then some (.strayTarget i.kind)
  else none

/-- The first breach from a position on. -/
def firstBreach (position : Nat) : List Instruction → Option (Nat × Breach)
  | [] => none
  | i :: rest =>
    match breachAt position i with
    | some breach => some (position, breach)
    | none => firstBreach (position + 1) rest

structure Stream where
  instructions : List Instruction
  contract : firstBreach 0 instructions = none

namespace Stream

def ofList (instructions : List Instruction) : Except Failure Stream :=
  match h : firstBreach 0 instructions with
  | none => .ok ⟨instructions, h⟩
  | some (position, breach) => .error (.contract position breach)

def length (s : Stream) : Nat := s.instructions.length

def text (s : Stream) : String :=
  let length := s.length
  s!"InstructionStream(length={length})"

def jumps (s : Stream) : List Instruction := s.instructions.filter fun i => i.kind.isJump

/-- Whether an index lies within the stream. -/
def inRange (s : Stream) (i : Int) : Bool := decide (0 ≤ i ∧ i < s.length)

def get? (s : Stream) (i : Int) : Option Instruction := Position.get? s.instructions i

/-- The instruction at a signed position, which must be there. -/
def instruction (s : Stream) (i : Int) : Except Fault Instruction :=
  match s.get? i with
  | some instruction => .ok instruction
  | none => .error (.ofPosition i .noInstruction)

def slice (s : Stream) (start stop : Int) : List Instruction :=
  Position.slice s.instructions start stop

/-- A stepped slice; the step is not zero. -/
def stepped (s : Stream) (start stop : Option Int) (step : Int) : List Instruction :=
  (Position.stepped s.length start stop step).filterMap s.get?

/-- The first position that holds a given instruction. -/
def find? (s : Stream) (x : Instruction) : Option Nat :=
  s.instructions.findIdx? fun i => i.same x

def count (s : Stream) (x : Instruction) : Nat :=
  s.instructions.countP fun i => i.same x

def contains (s : Stream) (x : Instruction) : Bool :=
  s.instructions.any fun i => i.same x

end Stream

end FlowGraph
