import FlowGraph.Text.CodePoint
import FlowGraph.Text.Printable

/-!
Quoted text and quoted bytes. The quote mark is the single one unless the content holds single
marks and no double ones. The mark in use and the backslash are escaped, line feed, carriage
return and tab have short escapes, and whatever is not printable is written by its number in
hexadecimal.
-/
namespace FlowGraph.Text

def hexDigit (n : Nat) : Char :=
  if n < 10 then Char.ofNat (48 + n) else Char.ofNat (87 + n)

/-- The last `width` hexadecimal digits of a number. -/
def hexDigits : Nat → Nat → List Char
  | 0, _ => []
  | width + 1, n => hexDigits width (n / 16) ++ [hexDigit (n % 16)]

/-- The escape of a code point by number, in the shortest of the three widths that holds it. -/
def numericEscape (n : Nat) : List Char :=
  if n < 0x100 then '\\' :: 'x' :: hexDigits 2 n
  else if n < 0x10000 then '\\' :: 'u' :: hexDigits 4 n
  else '\\' :: 'U' :: hexDigits 8 n

def escapeChar (mark : Char) (c : Char) : List Char :=
  if c == mark || c == '\\' then ['\\', c]
  else if c == '\n' then ['\\', 'n']
  else if c == '\r' then ['\\', 'r']
  else if c == '\t' then ['\\', 't']
  else if isPrintable c then [c]
  else numericEscape c.toNat

/-- The quote mark for some content: double only when that saves every escape of a mark. -/
def quoteMark (cs : List Char) : Char :=
  if cs.contains '\'' && !cs.contains '"' then '"' else '\''

def escapeCode (mark : Char) : CodePoint → List Char
  | .char c => escapeChar mark c
  | .half n => numericEscape (firstHalf + n)

def quotedCodes (cs : List CodePoint) : String :=
  let mark := quoteMark (cs.filterMap CodePoint.toChar?)
  String.ofList (mark :: cs.flatMap (escapeCode mark) ++ [mark])

def quoted (s : String) : String := quotedCodes (codes s)

/-- Code points without quotes: characters stand as they are, and what is none is written by its
number. -/
def shown (cs : List CodePoint) : String :=
  String.ofList (cs.flatMap fun c => match c with
    | .char c => [c]
    | .half n => numericEscape (firstHalf + n))

def escapeByte (mark : Char) (b : UInt8) : List Char :=
  if b < 128 then escapeChar mark (Char.ofNat b.toNat) else numericEscape b.toNat

/-- Bytes are quoted like ASCII text, with a leading `b`. -/
def quotedBytes (bs : List UInt8) : String :=
  let mark := quoteMark (bs.map fun b => Char.ofNat b.toNat)
  String.ofList ('b' :: mark :: bs.flatMap (escapeByte mark) ++ [mark])

/-- Two hexadecimal digits a byte. -/
def hexBytes (bs : List UInt8) : String :=
  String.ofList (bs.flatMap fun b => hexDigits 2 b.toNat)

def hexValue? (c : Char) : Option Nat :=
  if c.isDigit then some (c.toNat - 48)
  else if 'a' ≤ c && c ≤ 'f' then some (c.toNat - 87)
  else none

/-- Reads what `hexBytes` writes. -/
def ofHexBytes? : List Char → Option (List UInt8)
  | [] => some []
  | [_] => none
  | a :: b :: rest => do
    let high ← hexValue? a
    let low ← hexValue? b
    let bytes ← ofHexBytes? rest
    some (UInt8.ofNat (high * 16 + low) :: bytes)

end FlowGraph.Text
