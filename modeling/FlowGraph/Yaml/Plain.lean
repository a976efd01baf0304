import FlowGraph.Yaml.Cursor

/-!
Plain scalars: words without quotes. They may run over several lines, as long as the lines stay
indented outside brackets; a single line break then counts as a space and further ones as
themselves.
-/
namespace FlowGraph.Yaml.Plain

/-- Marks of bracketed collections that end a word within brackets. -/
def isFlowMark (c : Char) : Bool :=
  c == ',' || c == '[' || c == ']' || c == '\x7b' || c == '\x7d'

/-- Whether a colon ends a word, judged by what follows it. -/
def colonEnds (flow : Bool) (next : Option Char) : Bool :=
  endsWord next || (flow && next.any isFlowMark)

/-- The length of the word at the front. -/
def wordLength (flow : Bool) : List Char → Nat
  | [] => 0
  | c :: cs =>
    if endsWord (some c) || (c == ':' && colonEnds flow cs.head?) ||
        (flow && (isFlowMark c || c == '?')) then 0
    else wordLength flow cs + 1

/-- Reads blank lines and the indentation after them; none when a document separator comes up. -/
def takeBreaks : Nat → Cursor → List Char → Option (List Char × Cursor)
  | 0, c, breaks => some (breaks, c)
  | fuel + 1, c, breaks =>
    if c.sees ' ' then takeBreaks fuel c.skipSpaces breaks
    else if c.peek.any isBreak then
      let (br, after) := c.takeBreak
      if after.atSeparator then none else takeBreaks fuel after (breaks ++ br)
    else some (breaks, c)

/-- What stands between two words, with the cursor behind it and whether a line ended. Nothing,
when no further word can follow. -/
structure Gap where
  text : List Char
  cursor : Cursor
  broke : Bool

def takeGap (c : Cursor) : Gap :=
  let spaces := c.takeWhile (· == ' ')
  let c := c.skipSpaces
  if c.peek.any isBreak then
    let (br, after) := c.takeBreak
    if after.atSeparator then ⟨[], after, true⟩
    else match takeBreaks (after.left + 1) after [] with
      | none => ⟨[], after, true⟩
      | some (breaks, last) =>
        let joint := if br != ['\n'] then br else if breaks.isEmpty then [' '] else []
        ⟨joint ++ breaks, last, true⟩
  else ⟨spaces, c, false⟩

/-- Words and the gaps between them. Gives the text, the cursor behind it, and whether the last
gap ended a line. -/
def takeWords (flow : Bool) (indent : Int) : Nat → Cursor → List Char → List Char → Bool →
    List Char × Cursor × Bool
  | 0, c, text, _, broke => (text, c, broke)
  | fuel + 1, c, text, gap, broke =>
    let n := if c.sees '#' then 0 else wordLength flow c.rest
    if n == 0 then (text, c, broke)
    else
      let text := text ++ gap ++ c.rest.take n
      let next := takeGap (c.advanceBy n)
      if next.text.isEmpty || next.cursor.sees '#' ||
          (!flow && (next.cursor.column : Int) < indent) then (text, next.cursor, next.broke)
      else takeWords flow indent fuel next.cursor text next.text next.broke

def take (flow : Bool) (indent : Int) (c : Cursor) : List Char × Cursor × Bool :=
  takeWords flow indent (c.left + 1) c [] [] false

end FlowGraph.Yaml.Plain
