import FlowGraph.Yaml.Cursor
import FlowGraph.Yaml.Fault

/-!
Quoted scalars. Between single quotes only the quote itself needs care, and is written twice.
Between double quotes a backslash starts an escape, and one at the end of a line joins the lines.
A line break counts as a space, and further ones as themselves.
-/
namespace FlowGraph.Yaml.Quoted

open Text (CodePoint)

def isHex (c : Char) : Bool :=
  c.isDigit || ('a' ≤ c && c ≤ 'f') || ('A' ≤ c && c ≤ 'F')

def hexNumber (cs : List Char) : Nat :=
  Number.ofDigits 16 (cs.filterMap (Number.digitValue? 16))

/-- Escapes that stand for one character. -/
def shortEscape? (c : Char) : Option Char :=
  match c with
  | '0' => some (Char.ofNat 0)
  | 'a' => some (Char.ofNat 7)
  | 'b' => some (Char.ofNat 8)
  | 't' => some '\t'
  | '\t' => some '\t'
  | 'n' => some '\n'
  | 'v' => some (Char.ofNat 11)
  | 'f' => some (Char.ofNat 12)
  | 'r' => some '\r'
  | 'e' => some (Char.ofNat 27)
  | ' ' => some ' '
  | '"' => some '"'
  | '\\' => some '\\'
  | '/' => some '/'
  | 'N' => some (Char.ofNat 0x85)
  | '_' => some (Char.ofNat 0xa0)
  | 'L' => some (Char.ofNat 0x2028)
  | 'P' => some (Char.ofNat 0x2029)
  | _ => none

/-- Escapes that are followed by a number of hexadecimal digits. -/
def escapeWidth? (c : Char) : Option Nat :=
  match c with
  | 'x' => some 2
  | 'u' => some 4
  | 'U' => some 8
  | _ => none

def codeOfNumber (n : Nat) : Except Fault CodePoint :=
  match CodePoint.ofNat? n with
  | some c => .ok c
  | none => .error (.codePoint n)

/-- Line breaks after the first, with the blanks around them dropped. -/
def takeBreaks : Nat → Cursor → List Char → Except Fault (List Char × Cursor)
  | 0, c, breaks => .ok (breaks, c)
  | fuel + 1, c, breaks =>
    if c.atSeparator then .error .invalid
    else
      let c := c.skipWhile fun ch => ch == ' ' || ch == '\t'
      if c.peek.any isBreak then
        let (br, after) := c.takeBreak
        takeBreaks fuel after (breaks ++ br)
      else .ok (breaks, c)

/-- An escape, with the cursor behind its backslash. -/
def takeEscape (c : Cursor) : Except Fault (List CodePoint × Cursor) :=
  match c.peek with
  | none => .error .invalid
  | some ch =>
    match shortEscape? ch, escapeWidth? ch with
    | some meant, _ => .ok ([.char meant], c.advance)
    | none, some width => do
      let digits := c.advance.rest.take width
      if digits.length == width && digits.all isHex then
        let meant ← codeOfNumber (hexNumber digits)
        .ok ([meant], c.advance.advanceBy width)
      else .error .invalid
    | none, none =>
      if isBreak ch then do
        let (_, after) := c.takeBreak
        let (breaks, last) ← takeBreaks (after.left + 1) after []
        .ok (breaks.map .char, last)
      else .error .invalid

def isOrdinary (c : Char) : Bool :=
  !(c == '\'' || c == '"' || c == '\\' || endsWord (some c))

/-- Everything up to a blank, a line break, the closing quote or the end of the text. -/
def takeRun (double : Bool) :
    Nat → Cursor → List CodePoint → Except Fault (List CodePoint × Cursor)
  | 0, c, text => .ok (text, c)
  | fuel + 1, c, text =>
    let run := c.takeWhile isOrdinary
    let text := text ++ run.map .char
    let c := c.advanceBy run.length
    match c.peek with
    | some '\'' =>
      if double then takeRun double fuel c.advance (text ++ [.char '\''])
      else if c.peekAt 1 == some '\'' then
        takeRun double fuel (c.advanceBy 2) (text ++ [.char '\''])
      else .ok (text, c)
    | some '"' =>
      if double then .ok (text, c) else takeRun double fuel c.advance (text ++ [.char '"'])
    | some '\\' =>
      if double then do
        let (meant, after) ← takeEscape c.advance
        takeRun double fuel after (text ++ meant)
      else takeRun double fuel c.advance (text ++ [.char '\\'])
    | _ => .ok (text, c)

/-- Blanks within a line, or line breaks with the blanks around them. -/
def takeSpaces (c : Cursor) : Except Fault (List Char × Cursor) :=
  let isGap := fun ch => ch == ' ' || ch == '\t'
  let blanks := c.takeWhile isGap
  let c := c.skipWhile isGap
  match c.peek with
  | none => .error .invalid
  | some ch =>
    if isBreak ch then do
      let (br, after) := c.takeBreak
      let (breaks, last) ← takeBreaks (after.left + 1) after []
      let joint := if br != ['\n'] then br else if breaks.isEmpty then [' '] else []
      .ok (joint ++ breaks, last)
    else .ok (blanks, c)

def takeBody (double : Bool) :
    Nat → Cursor → List CodePoint → Except Fault (List CodePoint × Cursor)
  | 0, _, _ => .error .invalid
  | fuel + 1, c, text => do
    let (run, c) ← takeRun double (c.left + 1) c []
    if c.peek == some (if double then '"' else '\'') then .ok (text ++ run, c.advance)
    else
      let (gap, c) ← takeSpaces c
      takeBody double fuel c (text ++ run ++ gap.map .char)

/-- The cursor is at the opening quote. -/
def take (double : Bool) (c : Cursor) : Except Fault (List CodePoint × Cursor) :=
  takeBody double (c.left + 1) c.advance []

end FlowGraph.Yaml.Quoted
