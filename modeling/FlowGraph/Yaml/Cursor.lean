/-!
A cursor in a text: what is left to read, and how far, in which line and in which column the
reading has come. Lines end at a line feed, a carriage return, both together, or one of three
other breaks. A byte-order mark takes no column.
-/
namespace FlowGraph.Yaml

def isBreak (c : Char) : Bool :=
  c == '\n' || c == '\r' || c.toNat == 0x85 || c.toNat == 0x2028 || c.toNat == 0x2029

/-- The end of the text or of a line. -/
def endsLine : Option Char → Bool
  | none => true
  | some c => isBreak c

/-- The end of a line, or a space. -/
def endsItem : Option Char → Bool
  | none => true
  | some c => isBreak c || c == ' '

/-- The end of a line, a space or a tab. -/
def endsWord : Option Char → Bool
  | none => true
  | some c => isBreak c || c == ' ' || c == '\t'

structure Cursor where
  rest : List Char
  /-- How many characters are left. -/
  left : Nat
  index : Nat := 0
  line : Nat := 0
  column : Nat := 0

namespace Cursor

def ofText (text : String) : Cursor := { rest := text.toList, left := text.length }

def peek (c : Cursor) : Option Char := c.rest.head?

def peekAt (c : Cursor) (k : Nat) : Option Char := c.rest[k]?

def sees (c : Cursor) (ch : Char) : Bool := c.peek == some ch

/-- A carriage return just before a line feed does not end the line by itself. -/
def advance (c : Cursor) : Cursor :=
  match c.rest with
  | [] => c
  | ch :: more =>
    if isBreak ch && !(ch == '\r' && more.head? == some '\n') then
      ⟨more, c.left - 1, c.index + 1, c.line + 1, 0⟩
    else if ch.toNat == 0xfeff then ⟨more, c.left - 1, c.index + 1, c.line, c.column⟩
    else ⟨more, c.left - 1, c.index + 1, c.line, c.column + 1⟩

def advanceBy : Nat → Cursor → Cursor
  | 0, c => c
  | n + 1, c => advanceBy n c.advance

def takeWhile (c : Cursor) (p : Char → Bool) : List Char := c.rest.takeWhile p

def skipWhile (c : Cursor) (p : Char → Bool) : Cursor := c.advanceBy (c.takeWhile p).length

def skipSpaces (c : Cursor) : Cursor := c.skipWhile (· == ' ')

/-- Skips spaces, but not past a column. -/
def skipSpacesTo (c : Cursor) (column : Nat) : Cursor :=
  c.advanceBy (min (c.takeWhile (· == ' ')).length (column - c.column))

def skipLine (c : Cursor) : Cursor := c.skipWhile fun ch => !isBreak ch

/-- Skips a comment, if the cursor is at one. -/
def skipComment (c : Cursor) : Cursor := if c.sees '#' then c.skipLine else c

/-- Reads one line break. All but the two separators become a line feed. -/
def takeBreak (c : Cursor) : List Char × Cursor :=
  match c.rest with
  | '\r' :: '\n' :: _ => (['\n'], c.advanceBy 2)
  | ch :: _ =>
    if ch == '\n' || ch == '\r' || ch.toNat == 0x85 then (['\n'], c.advance)
    else if isBreak ch then ([ch], c.advance)
    else ([], c)
  | [] => ([], c)

/-- Whether three given marks stand here as a word of their own. -/
def atMarker (c : Cursor) (mark : Char) : Bool :=
  c.rest.take 3 == [mark, mark, mark] && endsWord (c.peekAt 3)

/-- Whether a document starts or ends here. -/
def atSeparator (c : Cursor) : Bool := c.atMarker '-' || c.atMarker '.'

end Cursor

end FlowGraph.Yaml
