import FlowGraph.Yaml.Quoted

/-!
Tags: names of types. A tag is written in full between angle brackets, or as a handle, which
stands for the front part of a name, and the rest. Percent signs escape bytes.
-/
namespace FlowGraph.Yaml

/-- A tag as written: the handle, unless the name is given in full, and the rest of the name. -/
structure TagName where
  handle : Option String
  suffix : String
  deriving DecidableEq, Repr

namespace TagName

def isWordChar (c : Char) : Bool := c.isAlphanum || c == '-' || c == '_'

def isUriChar (c : Char) : Bool :=
  c.isAlphanum || "-;/?:@&=+$,_.!~*'()[]%".toList.contains c

/-- Percent escapes, one byte each, up to the first character that is none. -/
def takeBytes : Nat → Cursor → List UInt8 → Except Fault (List UInt8 × Cursor)
  | 0, c, bytes => .ok (bytes, c)
  | fuel + 1, c, bytes =>
    if c.sees '%' then
      let digits := c.advance.rest.take 2
      if digits.length == 2 && digits.all Quoted.isHex then
        takeBytes fuel (c.advanceBy 3) (bytes ++ [(Quoted.hexNumber digits).toUInt8])
      else .error .invalid
    else .ok (bytes, c)

def decodeBytes (bytes : List UInt8) : Except Fault (List Char) :=
  match String.fromUTF8? ⟨bytes.toArray⟩ with
  | some s => .ok s.toList
  | none => .error .invalid

def takeUriParts : Nat → Cursor → List Char → Except Fault (List Char × Cursor)
  | 0, c, text => .ok (text, c)
  | fuel + 1, c, text =>
    if c.sees '%' then do
      let (bytes, after) ← takeBytes (c.left + 1) c []
      takeUriParts fuel after (text ++ (← decodeBytes bytes))
    else
      let run := c.takeWhile fun ch => isUriChar ch && ch != '%'
      if run.isEmpty then .ok (text, c)
      else takeUriParts fuel (c.advanceBy run.length) (text ++ run)

def takeUri (c : Cursor) : Except Fault (String × Cursor) := do
  let (text, after) ← takeUriParts (c.left + 1) c []
  if after.index == c.index then .error .invalid else .ok (String.ofList text, after)

/-- A handle: an exclamation mark, or a word between two. -/
def takeHandle (c : Cursor) : Except Fault (String × Cursor) :=
  if c.sees '!' then
    if c.advance.sees ' ' then .ok ("!", c.advance)
    else
      let word := c.advance.takeWhile isWordChar
      let after := c.advance.advanceBy word.length
      if after.sees '!' then .ok (String.ofList ('!' :: word ++ ['!']), after.advance)
      else .error .invalid
  else .error .invalid

/-- Whether a second exclamation mark stands in the word at the cursor. -/
def hasHandle (c : Cursor) : Bool :=
  (c.advance.takeWhile fun ch => !endsItem (some ch)).contains '!'

/-- The cursor is at the exclamation mark. -/
def take (c : Cursor) : Except Fault (TagName × Cursor) := do
  let (name, after) ←
    if c.advance.sees '<' then do
      let (uri, after) ← takeUri (c.advanceBy 2)
      if after.sees '>' then .ok ((⟨none, uri⟩ : TagName), after.advance) else .error .invalid
    else if endsWord c.advance.peek then .ok (⟨none, "!"⟩, c.advance)
    else do
      let (handle, inner) ← if hasHandle c then takeHandle c else .ok ("!", c.advance)
      let (suffix, after) ← takeUri inner
      .ok (⟨some handle, suffix⟩, after)
  if endsItem after.peek then .ok (name, after) else .error .invalid

end TagName

end FlowGraph.Yaml
