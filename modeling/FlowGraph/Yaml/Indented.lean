import FlowGraph.Yaml.Cursor
import FlowGraph.Yaml.Fault

/-!
Indented scalars: lines set off by their indentation. A literal one keeps its line breaks; a
folded one joins lines that do not start with a blank. The header may fix the indentation and say
what becomes of the line breaks at the end: one is kept, or none, or all.
-/
namespace FlowGraph.Yaml.Indented

inductive Ending
  | clip
  | strip
  | keep
  deriving DecidableEq

structure Header where
  ending : Ending := .clip
  increment : Option Nat := none

def ending? : Option Char → Option Ending
  | some '+' => some .keep
  | some '-' => some .strip
  | _ => none

def increment? : Option Char → Option Nat
  | some c => if c.isDigit then some (c.toNat - 48) else none
  | none => none

/-- The two marks of a header come in either order. -/
def takeMarks (c : Cursor) : Header × Cursor :=
  match ending? c.peek, increment? c.peek with
  | some ending, _ =>
    match increment? c.advance.peek with
    | some n => ({ ending, increment := some n }, c.advanceBy 2)
    | none => ({ ending }, c.advance)
  | none, some n =>
    match ending? c.advance.peek with
    | some ending => ({ ending, increment := some n }, c.advanceBy 2)
    | none => ({ increment := some n }, c.advance)
  | none, none => ({}, c)

/-- The rest of the header's line holds nothing but a comment. -/
def takeHeader (c : Cursor) : Except Fault (Header × Cursor) :=
  let (header, c) := takeMarks c
  if header.increment == some 0 || !endsItem c.peek then .error .invalid
  else
    let c := c.skipSpaces.skipComment
    if endsLine c.peek then .ok (header, c.takeBreak.2) else .error .invalid

/-- Blank lines at the front and the largest indentation among them and the first line. -/
def takeIndentation : Nat → Cursor → List Char → Nat → List Char × Nat × Cursor
  | 0, c, breaks, most => (breaks, most, c)
  | fuel + 1, c, breaks, most =>
    if c.sees ' ' then
      let c := c.advance
      takeIndentation fuel c breaks (max most c.column)
    else if c.peek.any isBreak then
      let (br, after) := c.takeBreak
      takeIndentation fuel after (breaks ++ br) most
    else (breaks, most, c)

/-- Blank lines, and the indentation of the line after them up to a column. -/
def takeBreaks (indent : Nat) : Nat → Cursor → List Char → List Char × Cursor
  | 0, c, breaks => (breaks, c)
  | fuel + 1, c, breaks =>
    let c := c.skipSpacesTo indent
    if c.peek.any isBreak then
      let (br, after) := c.takeBreak
      takeBreaks indent fuel after (breaks ++ br)
    else (breaks, c)

structure Body where
  text : List Char
  /-- The line break after the last line of text, and the ones after that. -/
  lastBreak : List Char
  breaks : List Char
  cursor : Cursor

def startsBlank (c : Cursor) : Bool := c.sees ' ' || c.sees '\t'

def takeLines (folded : Bool) (indent : Nat) : Nat → Body → Body
  | 0, body => body
  | fuel + 1, body =>
    let c := body.cursor
    if c.column == indent && c.peek.isSome then
      let line := c.takeWhile fun ch => !isBreak ch
      let (br, afterBreak) := c.skipLine.takeBreak
      let (breaks, next) := takeBreaks indent (afterBreak.left + 1) afterBreak []
      let text := body.text ++ body.breaks ++ line
      if next.column == indent && next.peek.isSome then
        let joint :=
          if folded && br == ['\n'] && !startsBlank c && !startsBlank next then
            (if breaks.isEmpty then [' '] else [])
          else br
        takeLines folded indent fuel ⟨text ++ joint, br, breaks, next⟩
      else ⟨text, br, breaks, next⟩
    else body

/-- The cursor is at the mark that opens the scalar. -/
def take (folded : Bool) (parentIndent : Int) (c : Cursor) :
    Except Fault (List Char × Cursor) := do
  let (header, c) ← takeHeader c.advance
  let least := max 1 (parentIndent + 1).toNat
  let fuel := c.left + 1
  let (breaks, indent, c) := match header.increment with
    | none =>
      let (breaks, most, c) := takeIndentation fuel c [] 0
      (breaks, max least most, c)
    | some n =>
      let indent := least + n - 1
      let (breaks, c) := takeBreaks indent fuel c []
      (breaks, indent, c)
  let body := takeLines folded indent fuel ⟨[], [], breaks, c⟩
  let tail := match header.ending with
    | .clip => body.lastBreak
    | .strip => []
    | .keep => body.lastBreak ++ body.breaks
  .ok (body.text ++ tail, body.cursor)

end FlowGraph.Yaml.Indented
