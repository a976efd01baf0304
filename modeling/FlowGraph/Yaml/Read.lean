import FlowGraph.Yaml.Meaning

/-!
Reading a data text. A text holds any number of documents, each started and ended by marks of its
own except that the first may start without one. When several are wanted, each is made out before
the next is read; when one is wanted, the start of a second one is refused before the first is
made out.
-/
namespace FlowGraph.Yaml

/-- Characters that a text may hold. -/
def isAllowed (c : Char) : Bool :=
  let n := c.toNat
  n == 9 || n == 10 || n == 13 || (0x20 ≤ n && n ≤ 0x7e) || n == 0x85 ||
    (0xa0 ≤ n && n ≤ 0xd7ff) || (0xe000 ≤ n && n ≤ 0xfffd) || 0x10000 ≤ n

def standardHandles : List (String × String) := [("!", "!"), ("!!", NodeType.commonFront)]

structure Directives where
  version : Bool := false
  handles : List (String × String) := []

/-- Each handle and the version may be declared once; the version must be one of the first
series. -/
def Directives.add (ds : Directives) : Directive → Except Fault Directives
  | .version major _ =>
    if ds.version || major != 1 then .error .invalid else .ok { ds with version := true }
  | .tag handle uri =>
    if ds.handles.any (·.1 == handle) then .error .invalid
    else .ok { ds with handles := ds.handles ++ [(handle, uri)] }
  | .other => .ok ds

/-- The tokens left, with the fault behind them. -/
structure Feed where
  tokens : List Token
  fault : Fault

namespace Feed

def peek (f : Feed) : Except Fault Token :=
  match f.tokens with
  | t :: _ => .ok t
  | [] => .error f.fault

def skip (f : Feed) : Feed := { f with tokens := f.tokens.drop 1 }

def dropEnds (f : Feed) : Feed := { f with tokens := f.tokens.dropWhile (· == .documentEnd) }

def takeDirectives : Nat → Feed → Directives → Except Fault (Directives × Feed)
  | 0, f, ds => .ok (ds, f)
  | fuel + 1, f, ds => do
    match ← f.peek with
    | .directive d => takeDirectives fuel f.skip (← ds.add d)
    | _ => .ok (ds, f)

def takeNodes (f : Feed) (handles : List (String × String)) :
    Except Fault (NodeTable × Feed) := do
  let fuel := 4 * f.tokens.length + 16
  let (root, state) ← (NodeReader.node true false fuel) ⟨handles, f.fault⟩ { tokens := f.tokens }
  .ok (⟨state.nodes, root⟩, { f with tokens := state.tokens })

/-- Ends a document, at a mark or without one. -/
def takeEnd (f : Feed) : Except Fault Feed := do
  match ← f.peek with
  | .documentEnd => .ok f.skip
  | _ => .ok f

def isContentEnd : Token → Bool
  | .directive _ => true
  | .documentStart => true
  | .documentEnd => true
  | .streamEnd => true
  | _ => false

/-- The handles that a document with a start mark declares, read up to that mark; none at the end
of the text. -/
def takeStart (f : Feed) : Except Fault (Option (List (String × String) × Feed)) := do
  let f := f.dropEnds
  if (← f.peek) == .streamEnd then .ok none
  else
    let (ds, f) ← takeDirectives (f.tokens.length + 1) f {}
    if (← f.peek) == .documentStart then .ok (some (ds.handles ++ standardHandles, f.skip))
    else .error .invalid

/-- A document with a start mark, or none at the end of the text. -/
def takeMarked (f : Feed) : Except Fault (Option (NodeTable × Feed)) := do
  match ← f.takeStart with
  | none => .ok none
  | some (handles, f) =>
    let (table, f) ←
      if isContentEnd (← f.peek) then .ok (⟨#[.empty], 0⟩, f) else f.takeNodes handles
    .ok (some (table, ← f.takeEnd))

/-- The first document may do without a start mark. -/
def takeFirst (f : Feed) : Except Fault (Option (NodeTable × Feed)) := do
  match ← f.peek with
  | .directive _ => f.takeMarked
  | .documentStart => f.takeMarked
  | .streamEnd => f.takeMarked
  | _ =>
    let (table, f) ← f.takeNodes standardHandles
    .ok (some (table, ← f.takeEnd))

/-- All further documents. -/
def takeDocuments : Nat → Feed → Except Fault (List Document)
  | 0, _ => .ok []
  | fuel + 1, f => do
    match ← f.takeMarked with
    | none => .ok []
    | some (table, f) =>
      let d ← table.toDocument
      .ok (d :: (← takeDocuments fuel f))

end Feed

def feed (text : String) : Except Fault Feed :=
  if text.toList.all isAllowed then
    let tokens := Tokens.ofText text
    .ok ⟨tokens.list, tokens.fault⟩
  else .error .invalid

/-- All documents of a text. -/
def readAll (text : String) : Except Fault (List Document) := do
  match ← (← feed text).takeFirst with
  | none => .ok []
  | some (table, f) =>
    let d ← table.toDocument
    .ok (d :: (← Feed.takeDocuments (f.tokens.length + 1) f))

/-- The only document of a text, null if there is none. -/
def readOne (text : String) : Except Fault Document := do
  match ← (← feed text).takeFirst with
  | none => .ok .null
  | some (table, f) =>
    match ← f.takeStart with
    | none => table.toDocument
    | some _ => .error .invalid

end FlowGraph.Yaml
