import FlowGraph.Calendar
import FlowGraph.Number.Integer

/-!
Ways a text can fail to be a data document. Most are breaches of the format and need no telling
apart; the others are scalars of a right shape that name no value.
-/
namespace FlowGraph.Yaml

inductive Fault
  | invalid
  /-- An escape that names a number beyond the last character. -/
  | codePoint (n : Nat)
  | integer (fault : Number.IntegerFault)
  /-- A number without any digits. -/
  | emptyNumber
  | float (text : List Text.CodePoint)
  /-- A number of base sixty with a place too high for a float. -/
  | highPlace
  | truth (word : List Text.CodePoint)
  | calendar (fault : CalendarFault)
  | notMoment
  /-- A mapping where a point in time must be written out. -/
  | mappedMoment
  /-- A mapping that stands for its own value. -/
  | endless
  deriving DecidableEq, Repr

def Fault.message : Fault → String
  | .invalid => "Invalid YAML"
  | .codePoint n =>
    if n < 0x80000000 then "chr() arg not in range(0x110000)"
    else "Python int too large to convert to C int"
  | .integer fault => fault.message
  | .emptyNumber => "string index out of range"
  | .float text => "could not convert string to float: " ++ Text.quotedCodes text
  | .highPlace => "int too large to convert to float"
  | .truth word => Text.quotedCodes word
  | .calendar fault => fault.message
  | .notMoment => "'NoneType' object has no attribute 'groupdict'"
  | .mappedMoment => "expected string or bytes-like object, got 'list'"
  | .endless => "maximum recursion depth exceeded"

end FlowGraph.Yaml
