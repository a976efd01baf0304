import FlowGraph.Yaml.Indented
import FlowGraph.Yaml.Plain
import FlowGraph.Yaml.Tag

/-!
Tokens of a data text. Collections outside brackets have no marks of their own: they start where a
line is indented further and end where one is indented less. A scalar or bracket may turn out to
be a key only when the colon after it is read, so it is remembered as a possible key until then,
for at most one line and 1024 characters, and the tokens that make it a key are put in before it
afterwards.
-/
namespace FlowGraph.Yaml

inductive Directive
  | version (major minor : Nat)
  | tag (handle uri : String)
  | other
  deriving DecidableEq, Repr

inductive Token
  | streamEnd
  | directive (d : Directive)
  | documentStart
  | documentEnd
  | blockSequenceStart
  | blockMappingStart
  | blockEnd
  | flowSequenceStart
  | flowSequenceEnd
  | flowMappingStart
  | flowMappingEnd
  | blockEntry
  | flowEntry
  | key
  | value
  | alias (name : String)
  | anchor (name : String)
  | tag (name : TagName)
  | scalar (text : List Text.CodePoint) (plain : Bool)
  deriving DecidableEq, Repr

/-- Tokens, and the fault that comes up when one more is asked for. -/
structure Tokens where
  list : List Token
  fault : Fault := .invalid

/-- A place where a key may have started, with the number of tokens before it. A required key must
turn out to be one. -/
structure PossibleKey where
  number : Nat
  required : Bool
  index : Nat
  line : Nat
  column : Nat

structure Lexer where
  cursor : Cursor
  /-- How many brackets are open. -/
  flow : Nat := 0
  indent : Int := -1
  indents : List Int := []
  keyAllowed : Bool := true
  /-- The possible keys by depth of brackets. -/
  keys : List (Nat × PossibleKey) := []
  /-- The tokens so far, last one first. -/
  made : List Token := []
  /-- How many tokens there are. -/
  count : Nat := 0

namespace Lexer

def inFlow (l : Lexer) : Bool := l.flow > 0

def emit (l : Lexer) (t : Token) : Lexer := { l with made := t :: l.made, count := l.count + 1 }

/-- Puts a token before the last `k` ones. -/
def insertBefore (l : Lexer) (k : Nat) (t : Token) : Lexer :=
  { l with made := l.made.take k ++ t :: l.made.drop k, count := l.count + 1 }

/-- Moves on by some characters and emits a token. -/
def emitMark (l : Lexer) (width : Nat) (t : Token) : Lexer :=
  { l with cursor := l.cursor.advanceBy width }.emit t

def isStale (c : Cursor) (k : PossibleKey) : Bool :=
  k.line != c.line || c.index - k.index > 1024

/-- Forgets the possible keys that lie too far back. -/
def dropStale (l : Lexer) : Except Fault Lexer :=
  if l.keys.any fun (_, k) => isStale l.cursor k && k.required then .error .invalid
  else .ok { l with keys := l.keys.filter fun (_, k) => !isStale l.cursor k }

def keyHere? (l : Lexer) : Option PossibleKey := l.keys.lookup l.flow

def forgetKey (l : Lexer) : Lexer :=
  { l with keys := l.keys.filter fun (level, _) => level != l.flow }

def dropKey (l : Lexer) : Except Fault Lexer :=
  if l.keyHere?.any (·.required) then .error .invalid else .ok l.forgetKey

/-- Remembers that a key may start here, where keys are allowed. -/
def saveKey (l : Lexer) : Except Fault Lexer :=
  if l.keyAllowed then do
    let l ← l.dropKey
    let c := l.cursor
    let required := !l.inFlow && l.indent == (c.column : Int)
    let possible : PossibleKey := ⟨l.count, required, c.index, c.line, c.column⟩
    .ok { l with keys := (l.flow, possible) :: l.keys }
  else .ok l

/-- Ends the blocks that are indented further than a column. -/
def unwind (column : Int) (l : Lexer) : Lexer :=
  if l.inFlow then l
  else
    let closed := (l.indent :: l.indents).takeWhile (column < ·)
    let left := (l.indent :: l.indents).drop closed.length
    { l with
      indent := left.head?.getD (-1)
      indents := left.tail
      made := List.replicate closed.length .blockEnd ++ l.made
      count := l.count + closed.length }

/-- Opens a block at a column that is further in than the current one; tells whether it did. -/
def open? (l : Lexer) (column : Nat) : Option Lexer :=
  if l.indent < column then some { l with indent := column, indents := l.indent :: l.indents }
  else none

def openBlock (l : Lexer) (t : Token) : Lexer :=
  match l.open? l.cursor.column with
  | some opened => opened.emit t
  | none => l

/-- Spaces, comments and line breaks, each followed by more of them. A line break outside brackets
allows a key. -/
def skipBlanks : Nat → Lexer → Lexer
  | 0, l => l
  | fuel + 1, l =>
    let c := l.cursor.skipSpaces.skipComment
    if c.peek.any isBreak then
      skipBlanks fuel { l with cursor := c.takeBreak.2, keyAllowed := l.keyAllowed || !l.inFlow }
    else { l with cursor := c }

def toNextToken (l : Lexer) : Lexer :=
  let c := l.cursor
  let l :=
    if c.index == 0 && c.peek.any (·.toNat == 0xfeff) then { l with cursor := c.advance } else l
  skipBlanks (l.cursor.left + 1) l

def finish (l : Lexer) : Except Fault Lexer := do
  let l ← (l.unwind (-1)).dropKey
  .ok { l with keyAllowed := false, keys := [] }

/-- Ends all blocks before a directive or document mark. -/
def closeBlocks (l : Lexer) : Except Fault Lexer := do
  let l ← (l.unwind (-1)).dropKey
  .ok { l with keyAllowed := false }

def takeNumber (c : Cursor) : Except Fault (Nat × Cursor) :=
  let digits := c.takeWhile Char.isDigit
  if digits.isEmpty then .error .invalid
  else .ok (Number.ofDigits 10 (digits.map (·.toNat - 48)), c.advanceBy digits.length)

def takeVersion (c : Cursor) : Except Fault (Directive × Cursor) := do
  let (major, c) ← takeNumber c.skipSpaces
  if c.sees '.' then
    let (minor, c) ← takeNumber c.advance
    if endsItem c.peek then .ok (.version major minor, c) else .error .invalid
  else .error .invalid

def takeTagDirective (c : Cursor) : Except Fault (Directive × Cursor) := do
  let (handle, c) ← TagName.takeHandle c.skipSpaces
  if c.sees ' ' then
    let (uri, c) ← TagName.takeUri c.skipSpaces
    if endsItem c.peek then .ok (.tag handle uri, c) else .error .invalid
  else .error .invalid

/-- The cursor is at the percent sign. -/
def takeDirective (c : Cursor) : Except Fault (Directive × Cursor) := do
  let c := c.advance
  let name := c.takeWhile TagName.isWordChar
  let c := c.advanceBy name.length
  if name.isEmpty || !endsItem c.peek then .error .invalid
  else
    let (d, c) ←
      if name == ['Y', 'A', 'M', 'L'] then takeVersion c
      else if name == ['T', 'A', 'G'] then takeTagDirective c
      else .ok (Directive.other, c.skipLine)
    let c := c.skipSpaces.skipComment
    if endsLine c.peek then .ok (d, c.takeBreak.2) else .error .invalid

def fetchDirective (l : Lexer) : Except Fault Lexer := do
  let l ← l.closeBlocks
  let (d, c) ← takeDirective l.cursor
  .ok ({ l with cursor := c }.emit (.directive d))

def fetchDocumentMark (l : Lexer) (t : Token) : Except Fault Lexer := do
  .ok ((← l.closeBlocks).emitMark 3 t)

def fetchFlowStart (l : Lexer) (t : Token) : Except Fault Lexer := do
  let l ← l.saveKey
  .ok ({ l with flow := l.flow + 1, keyAllowed := true }.emitMark 1 t)

def fetchFlowEnd (l : Lexer) (t : Token) : Except Fault Lexer := do
  let l ← l.dropKey
  .ok ({ l with flow := l.flow - 1, keyAllowed := false }.emitMark 1 t)

def fetchFlowEntry (l : Lexer) : Except Fault Lexer := do
  let l ← l.dropKey
  .ok ({ l with keyAllowed := true }.emitMark 1 .flowEntry)

/-- A dash that starts an entry. Within brackets it is out of place, which shows later. -/
def fetchBlockEntry (l : Lexer) : Except Fault Lexer :=
  if !l.inFlow && !l.keyAllowed then .error .invalid
  else do
    let l := if l.inFlow then l else l.openBlock .blockSequenceStart
    let l ← l.dropKey
    .ok ({ l with keyAllowed := true }.emitMark 1 .blockEntry)

def fetchKey (l : Lexer) : Except Fault Lexer :=
  if !l.inFlow && !l.keyAllowed then .error .invalid
  else do
    let l := if l.inFlow then l else l.openBlock .blockMappingStart
    let l ← l.dropKey
    .ok ({ l with keyAllowed := !l.inFlow }.emitMark 1 .key)

/-- A colon. If a key may have started before, it now has, and a mapping with it where the key is
indented further than the block around it. -/
def fetchValue (l : Lexer) : Except Fault Lexer :=
  match l.keyHere? with
  | some k =>
    let behind := l.count - k.number
    let l := l.forgetKey.insertBefore behind .key
    let opened := if l.inFlow then none else l.open? k.column
    let l := match opened with
      | some wider => wider.insertBefore (behind + 1) .blockMappingStart
      | none => l
    .ok ({ l with keyAllowed := false }.emitMark 1 .value)
  | none =>
    if !l.inFlow && !l.keyAllowed then .error .invalid
    else do
      let l := if l.inFlow then l else l.openBlock .blockMappingStart
      let l ← { l with keyAllowed := !l.inFlow }.dropKey
      .ok (l.emitMark 1 .value)

/-- The name behind the mark of an anchor or alias. -/
def takeName (c : Cursor) : Except Fault (String × Cursor) :=
  let name := c.takeWhile TagName.isWordChar
  let c := c.advanceBy name.length
  let closes := endsWord c.peek || c.peek.any fun ch => "?:,]\x7d%@`".toList.contains ch
  if name.isEmpty || !closes then .error .invalid else .ok (String.ofList name, c)

/-- Something that may be a key or part of one, and after which no key may start. -/
def fetchItem (l : Lexer) (take : Cursor → Except Fault (Token × Cursor)) :
    Except Fault Lexer := do
  let l ← l.saveKey
  let (t, c) ← take l.cursor
  .ok ({ l with keyAllowed := false, cursor := c }.emit t)

def fetchAnchor (l : Lexer) (token : String → Token) : Except Fault Lexer :=
  l.fetchItem fun c => (takeName c.advance).map fun (name, c) => (token name, c)

def fetchTag (l : Lexer) : Except Fault Lexer :=
  l.fetchItem fun c => (TagName.take c).map fun (name, c) => (.tag name, c)

def fetchQuoted (l : Lexer) (double : Bool) : Except Fault Lexer :=
  l.fetchItem fun c => (Quoted.take double c).map fun (text, c) =>
    (.scalar text false, c)

def fetchIndented (l : Lexer) (folded : Bool) : Except Fault Lexer := do
  let l ← { l with keyAllowed := true }.dropKey
  let (text, c) ← Indented.take folded l.indent l.cursor
  .ok ({ l with cursor := c }.emit (.scalar (text.map .char) false))

def fetchPlain (l : Lexer) : Except Fault Lexer := do
  let l ← l.saveKey
  let (text, c, broke) := Plain.take l.inFlow (l.indent + 1) l.cursor
  .ok ({ l with keyAllowed := broke, cursor := c }.emit (.scalar (text.map .char) true))

/-- Characters with a meaning of their own, which start no plain scalar by themselves. -/
def isIndicator (c : Char) : Bool := "-?:,[]\x7b\x7d#&*!|>'\"%@`".toList.contains c

/-- Whether a plain scalar starts here: with an ordinary character, or with a dash, or outside
brackets a question mark or colon, that is not a word by itself. -/
def startsPlain (l : Lexer) (ch : Char) : Bool :=
  (!endsWord (some ch) && !isIndicator ch) ||
    (!endsWord (l.cursor.peekAt 1) && (ch == '-' || (!l.inFlow && (ch == '?' || ch == ':'))))

/-- The token that starts with a character. -/
def fetchAt (l : Lexer) (ch : Char) : Except Fault Lexer :=
  let lone := endsWord (l.cursor.peekAt 1)
  let atLineStart := l.cursor.column == 0
  if ch == '%' && atLineStart then l.fetchDirective
  else if ch == '-' && atLineStart && l.cursor.atMarker '-' then
    l.fetchDocumentMark .documentStart
  else if ch == '.' && atLineStart && l.cursor.atMarker '.' then l.fetchDocumentMark .documentEnd
  else if ch == '[' then l.fetchFlowStart .flowSequenceStart
  else if ch == '\x7b' then l.fetchFlowStart .flowMappingStart
  else if ch == ']' then l.fetchFlowEnd .flowSequenceEnd
  else if ch == '\x7d' then l.fetchFlowEnd .flowMappingEnd
  else if ch == ',' then l.fetchFlowEntry
  else if ch == '-' && lone then l.fetchBlockEntry
  else if ch == '?' && (l.inFlow || lone) then l.fetchKey
  else if ch == ':' && (l.inFlow || lone) then l.fetchValue
  else if ch == '*' then l.fetchAnchor .alias
  else if ch == '&' then l.fetchAnchor .anchor
  else if ch == '!' then l.fetchTag
  else if ch == '|' && !l.inFlow then l.fetchIndented false
  else if ch == '>' && !l.inFlow then l.fetchIndented true
  else if ch == '\'' then l.fetchQuoted false
  else if ch == '"' then l.fetchQuoted true
  else if l.startsPlain ch then l.fetchPlain
  else .error .invalid

/-- How many tokens can be handed out while possible keys are open. -/
def settled (l : Lexer) : Nat :=
  (l.keys.map fun (_, k) => k.number).foldl min l.count

/-- Reads tokens to the end. A fault comes up behind the last token that was settled before it. -/
def run : Nat → Lexer → Tokens
  | 0, l => ⟨l.made.reverse, .invalid⟩
  | fuel + 1, l =>
    let cut := fun (l : Lexer) (fault : Fault) =>
      (⟨l.made.reverse.take l.settled, fault⟩ : Tokens)
    match l.dropStale with
    | .error fault => cut l fault
    | .ok l =>
      let fetched := do
        let next ← l.toNextToken.dropStale
        let next := next.unwind next.cursor.column
        match next.cursor.peek with
        | none => do .ok (true, ← next.finish)
        | some ch => do .ok (false, ← next.fetchAt ch)
      match fetched with
      | .error fault => cut l fault
      | .ok (true, last) => ⟨(last.emit .streamEnd).made.reverse, .invalid⟩
      | .ok (false, next) => run fuel next

end Lexer

/-- Every token but the last takes at least one character. -/
def Tokens.ofText (text : String) : Tokens :=
  Lexer.run (text.length + 2) { cursor := .ofText text }

end FlowGraph.Yaml
