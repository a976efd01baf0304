/-!
Code points of a text that was put together from numbers. Most are characters. The others are the
halves by which characters beyond the first plane are written in units of sixteen bits: an escape
can name one of them alone, and then it stands for no character, but it still counts, compares and
has a number.
-/
namespace FlowGraph.Text

/-- The number of the first half. -/
def firstHalf : Nat := 0xd800

inductive CodePoint
  | char (c : Char)
  /-- A half, by its place among the halves. -/
  | half (n : Fin 0x800)
  deriving DecidableEq, Repr

namespace CodePoint

def toNat : CodePoint → Nat
  | char c => c.toNat
  | half n => firstHalf + n

/-- The code point of a number, unless it lies beyond the last one. -/
def ofNat? (n : Nat) : Option CodePoint :=
  if h : firstHalf ≤ n ∧ n < firstHalf + 0x800 then some (half ⟨n - firstHalf, by omega⟩)
  else if n < 0x110000 then some (char (Char.ofNat n))
  else none

def toChar? : CodePoint → Option Char
  | char c => some c
  | half _ => none

end CodePoint

def codes (s : String) : List CodePoint := s.toList.map .char

/-- The code points as a string, if all of them are characters. -/
def ofCodes? (cs : List CodePoint) : Option String :=
  (cs.mapM CodePoint.toChar?).map String.ofList

end FlowGraph.Text
