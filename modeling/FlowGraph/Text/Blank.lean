/-!
Blank characters around a number. Six of them are ASCII; the rest are the separators and the
next-line control that other scripts and typesetting use.
-/
namespace FlowGraph.Text

def isAsciiBlank (c : Char) : Bool :=
  c == ' ' || (9 ≤ c.toNat && c.toNat ≤ 13)

def wideBlanks : List Nat := [
  0x85, 0xa0, 0x1680, 0x2000, 0x2001, 0x2002, 0x2003, 0x2004, 0x2005, 0x2006, 0x2007, 0x2008,
  0x2009, 0x200a, 0x2028, 0x2029, 0x202f, 0x205f, 0x3000]

def isBlank (c : Char) : Bool :=
  isAsciiBlank c || wideBlanks.contains c.toNat

/-- The characters between the outermost blanks, for a text whose only blanks are ASCII ones. -/
def trimBlanks (cs : List Char) : List Char :=
  ((cs.dropWhile isAsciiBlank).reverse.dropWhile isAsciiBlank).reverse

end FlowGraph.Text
