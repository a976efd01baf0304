import FlowGraph.Text.Blank
import FlowGraph.Text.DecimalDigit
import FlowGraph.Text.Quoted

/-!
Integers as people write them: blanks around, a sign, digits of any script, and single underscores
between digits, however many. In base two, eight and sixteen the digits may follow a letter that
names the base.
-/
namespace FlowGraph.Number

/-- A text that is no integer in a base. -/
structure IntegerFault where
  base : Nat
  text : List Text.CodePoint
  deriving DecidableEq, Repr

/-- How much of a malformed numeral the message shows, quote mark included. -/
def shownLength : Nat := 200

def IntegerFault.message (f : IntegerFault) : String :=
  let shown := String.ofList ((Text.quotedCodes f.text).toList.take shownLength)
  s!"invalid literal for int() with base {f.base}: {shown}"

/-- Folds blanks and digits of all scripts into ASCII, and all else outside ASCII into a mark that
no numeral holds. -/
def foldChar (c : Char) : Char :=
  if c.toNat < 127 then c
  else if Text.isBlank c then ' '
  else match Text.decimalDigit? c with
    | some d => Char.ofNat (48 + d)
    | none => '?'

def foldCode : Text.CodePoint → Char
  | .char c => foldChar c
  | .half _ => '?'

def digitValue? (base : Nat) (c : Char) : Option Nat :=
  let value :=
    if '0' ≤ c ∧ c ≤ '9' then some (c.toNat - 48)
    else if 'a' ≤ c ∧ c ≤ 'z' then some (c.toNat - 87)
    else if 'A' ≤ c ∧ c ≤ 'Z' then some (c.toNat - 55)
    else none
  value.filter (· < base)

/-- The digits at the front and what follows them; none when an underscore is not between
digits. -/
def takeDigits (base : Nat) : List Char → Bool → Option (List Nat × List Char)
  | [], pending => if pending then none else some ([], [])
  | c :: cs, pending =>
    if c == '_' then
      if pending then none else takeDigits base cs true
    else match digitValue? base c with
      | some d => (takeDigits base cs false).map fun (ds, rest) => (d :: ds, rest)
      | none => if pending then none else some ([], c :: cs)

def ofDigits (base : Nat) (ds : List Nat) : Nat :=
  ds.foldl (fun n d => n * base + d) 0

def baseLetter? : Nat → Option Char
  | 2 => some 'b'
  | 8 => some 'o'
  | 16 => some 'x'
  | _ => none

/-- Drops `0x` and the like, with the one underscore that may follow it. -/
def dropBaseMark (base : Nat) (cs : List Char) : List Char :=
  match cs with
  | '0' :: letter :: rest =>
    if baseLetter? base == some letter.toLower then
      match rest with
      | '_' :: more => more
      | _ => rest
    else cs
  | _ => cs

def takeSign : List Char → Bool × List Char
  | '-' :: cs => (true, cs)
  | '+' :: cs => (false, cs)
  | cs => (false, cs)

def readInteger (base : Nat) (text : List Text.CodePoint) : Except IntegerFault Int :=
  let (negative, unsigned) := takeSign (Text.trimBlanks (text.map foldCode))
  match takeDigits base (dropBaseMark base unsigned) true with
  | none => .error ⟨base, text⟩
  | some (ds, rest) =>
    if ds.isEmpty || !rest.isEmpty then .error ⟨base, text⟩
    else .ok (if negative then -(ofDigits base ds : Int) else ofDigits base ds)

end FlowGraph.Number
