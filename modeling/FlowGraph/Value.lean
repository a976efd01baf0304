import FlowGraph.Calendar
import FlowGraph.Text.Quoted

/-!
Values of a data document: scalars, lists, pairs, sets and maps. A value has a literal text, in
which strings are quoted, and a display text, in which a string on its own stands bare. Maps keep
their entries in order of first appearance. Numbers and truth values are compared by magnitude, so
`1`, `1.0` and `true` are one key. Values are trees: where a list or map would contain itself, a
leaf says so. Every integer has a text, however many digits it takes, and every value has one,
however deep it nests: that a host may refuse to write out very large ones is left aside.
-/
namespace FlowGraph

inductive Value
  | null
  | bool (b : Bool)
  | int (i : Int)
  | float (x : Float)
  | text (s : String)
  /-- A text with code points that are no characters. -/
  | broken (cs : List Text.CodePoint)
  | bytes (bs : List UInt8)
  | date (d : Date)
  | moment (m : Moment)
  | list (items : List Value)
  | pair (first second : Value)
  | set (members : List Value)
  | map (entries : List (Value × Value))
  /-- A list that this place is part of. -/
  | outerList
  /-- A map that this place is part of. -/
  | outerMap
  deriving Inhabited

namespace Value

/-- Floats stand positionally from `0.0001` up to sixteen digits before the point, and otherwise
with a signed exponent of at least two digits. -/
def floatLayout : Number.Layout := ⟨-3, 16, 2⟩

def ofCodes (cs : List Text.CodePoint) : Value :=
  match Text.ofCodes? cs with
  | some s => text s
  | none => broken cs

def typeName : Value → String
  | null => "NoneType"
  | bool _ => "bool"
  | int _ => "int"
  | float _ => "float"
  | text _ => "str"
  | broken _ => "str"
  | bytes _ => "bytes"
  | date _ => "date"
  | moment _ => "datetime"
  | list _ => "list"
  | pair .. => "tuple"
  | set _ => "set"
  | map _ => "dict"
  | outerList => "list"
  | outerMap => "dict"

/-- Null, false, zero and everything empty count as false. -/
def isTrue : Value → Bool
  | null => false
  | bool b => b
  | int i => i != 0
  | float x => x != 0.0
  | text s => !s.isEmpty
  | broken cs => !cs.isEmpty
  | bytes bs => !bs.isEmpty
  | date _ => true
  | moment _ => true
  | list items => !items.isEmpty
  | pair .. => true
  | set members => !members.isEmpty
  | map entries => !entries.isEmpty
  | outerList => true
  | outerMap => true

def boolText (b : Bool) : String := if b then "True" else "False"

mutual

def literal : Value → String
  | null => "None"
  | bool b => boolText b
  | int i => toString i
  | float x => floatLayout.float x
  | text s => Text.quoted s
  | broken cs => Text.quotedCodes cs
  | bytes bs => Text.quotedBytes bs
  | date d => d.literal
  | moment m => m.literal
  | list items => "[" ++ ", ".intercalate (literals items) ++ "]"
  | pair first second => "(" ++ first.literal ++ ", " ++ second.literal ++ ")"
  | set members =>
    if members.isEmpty then "set()" else "\x7b" ++ ", ".intercalate (literals members) ++ "\x7d"
  | map entries => "\x7b" ++ ", ".intercalate (entryLiterals entries) ++ "\x7d"
  | outerList => "[...]"
  | outerMap => "\x7b...\x7d"

def literals : List Value → List String
  | [] => []
  | v :: vs => v.literal :: literals vs

def entryLiterals : List (Value × Value) → List String
  | [] => []
  | (k, v) :: es => (k.literal ++ ": " ++ v.literal) :: entryLiterals es

end

/-- A text stands bare, a broken one as far as it can be shown. -/
def display : Value → String
  | text s => s
  | broken cs => Text.shown cs
  | date d => d.text
  | moment m => m.text ' '
  | v => v.literal

/-- The display text by code points, which keeps a broken text apart from one that only spells it
out. -/
def codes : Value → List Text.CodePoint
  | broken cs => cs
  | v => Text.codes v.display

/-- Whether a float has exactly the magnitude of an integer. -/
def floatIsInt (x : Float) (i : Int) : Bool :=
  let bits := x.toBits
  let magnitude := bits &&& 0x7fffffffffffffff
  if magnitude ≥ 0x7ff0000000000000 then false
  else
    let f := Number.Finite.ofBits magnitude
    let negative := bits >>> 63 == 1
    let sameSize :=
      f.mantissa * Nat.pow 2 f.exponent.toNat == i.natAbs * Nat.pow 2 (-f.exponent).toNat
    sameSize && (i == 0 || negative == decide (i < 0))

def numberOfBool (b : Bool) : Int := if b then 1 else 0

mutual

/-- Equality of values. A float that is not a number equals nothing, not even itself. -/
def same : Value → Value → Bool
  | null, null => true
  | bool a, bool b => a == b
  | bool a, int b => numberOfBool a == b
  | bool a, float b => floatIsInt b (numberOfBool a)
  | int a, bool b => a == numberOfBool b
  | int a, int b => a == b
  | int a, float b => floatIsInt b a
  | float a, bool b => floatIsInt a (numberOfBool b)
  | float a, int b => floatIsInt a b
  | float a, float b => a == b
  | text a, text b => a == b
  | broken a, broken b => a == b
  | bytes a, bytes b => a == b
  | date a, date b => a == b
  | moment a, moment b => a.same b
  | list a, list b => sameItems a b
  | pair a b, pair c d => same a c && same b d
  | set a, set b => a.length == b.length && sameMembers a b
  | map a, map b => a.length == b.length && sameEntries a b
  | _, _ => false

def sameItems : List Value → List Value → Bool
  | [], [] => true
  | a :: as, b :: bs => same a b && sameItems as bs
  | _, _ => false

/-- Every member on the left is one on the right, in whatever order. -/
def sameMembers : List Value → List Value → Bool
  | [], _ => true
  | a :: as, bs => (bs.any fun b => same a b) && sameMembers as bs

/-- Every entry on the left has its like on the right, in whatever order. -/
def sameEntries : List (Value × Value) → List (Value × Value) → Bool
  | [], _ => true
  | (k, v) :: es, bs => (bs.any fun e => same k e.1 && same v e.2) && sameEntries es bs

end

/-- Sets a key. A new key goes to the end; a present one keeps its place and takes the new
value. -/
def put (entries : List (Value × Value)) (key value : Value) : List (Value × Value) :=
  if entries.any fun e => e.1.same key then
    entries.map fun e => if e.1.same key then (e.1, value) else e
  else entries ++ [(key, value)]

def mapOfEntries (entries : List (Value × Value)) : Value :=
  map (entries.foldl (fun acc e => put acc e.1 e.2) [])

/-- The value under a name in the entries of a map. -/
def field? (entries : List (Value × Value)) (name : String) : Option Value :=
  (entries.find? fun e => match e.1 with
    | text s => s == name
    | _ => false).map (·.2)

/-- What a map holds under a name, null when it holds nothing. -/
def field (entries : List (Value × Value)) (name : String) : Value :=
  (field? entries name).getD null

end Value

end FlowGraph
