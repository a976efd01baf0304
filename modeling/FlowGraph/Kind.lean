/-!
Kinds of decoded instructions. Some lead to a target, on a condition or without one, some leave
the method, and after every other instruction control steps to the next one.
-/
namespace FlowGraph

inductive Kind
  | arithmetic
  | comparison
  | conditionalJump
  | unconditionalJump
  | call
  | ret
  | throw
  | other
  deriving DecidableEq, Repr

namespace Kind

def all : List Kind :=
  [arithmetic, comparison, conditionalJump, unconditionalJump, call, ret, throw, other]

def name : Kind → String
  | arithmetic => "arithmetic"
  | comparison => "comparison"
  | conditionalJump => "conditional_jump"
  | unconditionalJump => "unconditional_jump"
  | call => "call"
  | ret => "return"
  | throw => "throw"
  | other => "other"

/-- The name in capitals. -/
def title (k : Kind) : String := k.name.map Char.toUpper

def ofName? (s : String) : Option Kind := all.find? fun k => k.name == s

/-- The kinds that carry a target. -/
def jumps : List Kind := [conditionalJump, unconditionalJump]

/-- The kinds after which control does not go on within the method. -/
def terminals : List Kind := [ret, throw]

def isJump (k : Kind) : Bool := jumps.contains k

def isTerminal (k : Kind) : Bool := terminals.contains k

end Kind

end FlowGraph
