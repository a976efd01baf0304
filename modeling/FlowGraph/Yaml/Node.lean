import FlowGraph.Yaml.Scalar
import FlowGraph.Yaml.Token

/-!
Nodes: what a document's tokens describe. The nodes of a document stand in a table, and
collections refer to their parts by place, since an alias makes a node a part of several
collections, and even of itself: the name that an anchor gives to a node can be used as soon as
the node has begun.
-/
namespace FlowGraph.Yaml

/-- The types a node can have. -/
inductive NodeType
  | scalar (type : ScalarType)
  | seq
  | map
  | set
  /-- A sequence of mappings with one entry each. -/
  | pairs
  | unknown
  deriving DecidableEq, Repr

namespace NodeType

/-- The front part of the names of the common types. -/
def commonFront : String := "tag:yaml.org,2002:"

def common : List (String × NodeType) := [
  ("null", .scalar .null), ("bool", .scalar .bool), ("int", .scalar .int),
  ("float", .scalar .float), ("binary", .scalar .binary), ("timestamp", .scalar .time),
  ("str", .scalar .text), ("merge", .scalar .merge), ("value", .scalar .value),
  ("seq", .seq), ("map", .map), ("set", .set), ("omap", .pairs), ("pairs", .pairs)]

def ofName (name : String) : NodeType :=
  ((common.find? fun (short, _) => commonFront ++ short == name).map (·.2)).getD .unknown

end NodeType

/-- What a node says about its type: nothing, that the text decides, or a name in full. -/
inductive Typing
  | untyped
  | byText
  | named (name : String)
  deriving DecidableEq, Repr

namespace Typing

/-- The type of a scalar. A quoted one that says nothing is a text. -/
def scalarType (typing : Typing) (plain : Bool) (text : List Text.CodePoint) : NodeType :=
  match typing with
  | .named name => .ofName name
  | .byText => byItself
  | .untyped => if plain then byItself else .scalar .text
where
  byItself : NodeType := ((Scalar.typeOf? text).map .scalar).getD .unknown

def collectionType (standard : NodeType) : Typing → NodeType
  | .named name => .ofName name
  | _ => standard

end Typing

/-- What a node holds; parts are given by their places in the table. -/
inductive Content
  | scalar (text : List Text.CodePoint)
  | seq (items : List Nat)
  | map (entries : List (Nat × Nat))
  deriving DecidableEq, Repr

structure Node where
  type : NodeType
  content : Content
  deriving DecidableEq, Repr

/-- An absent node is a scalar without text. -/
def Node.empty : Node := ⟨.scalar .null, .scalar []⟩

/-- The nodes of a document and the place of the outermost one. -/
structure NodeTable where
  nodes : Array Node
  root : Nat

/-- What the nodes of one document have in common. -/
structure NodeContext where
  handles : List (String × String)
  /-- The fault that comes up behind the last token. -/
  fault : Fault

structure NodeState where
  tokens : List Token
  nodes : Array Node := #[]
  anchors : List (String × Nat) := []

abbrev NodeReader := ReaderT NodeContext (StateT NodeState (Except Fault))

namespace NodeReader

def peek : NodeReader Token := do
  match (← get).tokens with
  | t :: _ => return t
  | [] => throw (← read).fault

def skip : NodeReader Unit :=
  modify fun s => { s with tokens := s.tokens.drop 1 }

/-- Whether one of some tokens is next. -/
def sees (ts : List Token) : NodeReader Bool := do
  return ts.contains (← peek)

/-- Takes a token if it is next, and tells whether it was. -/
def accept (t : Token) : NodeReader Bool := do
  if (← peek) == t then
    skip
    return true
  else return false

def expect (t : Token) : NodeReader Unit := do
  unless ← accept t do throw .invalid

def takeAnchor : NodeReader (Option String) := do
  match ← peek with
  | .anchor name => do
    skip
    return some name
  | _ => return none

def takeTag : NodeReader (Option TagName) := do
  match ← peek with
  | .tag name => do
    skip
    return some name
  | _ => return none

/-- Anchor and tag come in either order. -/
def properties : NodeReader (Option String × Option TagName) := do
  match ← takeAnchor with
  | some name => return (some name, ← takeTag)
  | none =>
    match ← takeTag with
    | some tag => return (← takeAnchor, some tag)
    | none => return (none, none)

def typing (tag : Option TagName) : NodeReader Typing := do
  match tag with
  | none => return .untyped
  | some ⟨none, suffix⟩ => return if suffix == "!" then .byText else .named suffix
  | some ⟨some handle, suffix⟩ =>
    match (← read).handles.lookup handle with
    | none => throw .invalid
    | some front => return if front ++ suffix == "!" then .byText else .named (front ++ suffix)

def named (name : String) : NodeReader Nat := do
  match (← get).anchors.lookup name with
  | some place => return place
  | none => throw .invalid

def checkFresh (anchor : Option String) : NodeReader Unit := do
  match anchor with
  | none => return
  | some name => if (← get).anchors.any (·.1 == name) then throw .invalid

/-- Adds a node to the table, under the name of its anchor. -/
def add (anchor : Option String) (node : Node) : NodeReader Nat := do
  let place := (← get).nodes.size
  modify fun s => { s with
    nodes := s.nodes.push node
    anchors := (anchor.map fun name => (name, place)).toList ++ s.anchors }
  return place

def addEmpty : NodeReader Nat := add none .empty

/-- Adds a collection, reads its parts and gives them to it. -/
def addCollection (anchor : Option String) (type : NodeType) (parts : NodeReader Content) :
    NodeReader Nat := do
  let place ← add anchor ⟨type, .seq []⟩
  let content ← parts
  modify fun s => { s with nodes := s.nodes.setIfInBounds place ⟨type, content⟩ }
  return place

mutual

/-- A node. Outside brackets it may be a block; after a key it may be a sequence whose dashes are
not indented. -/
def node (block dashes : Bool) : Nat → NodeReader Nat
  | 0 => throw .invalid
  | fuel + 1 => do
    if let .alias name := ← peek then
      skip
      named name
    else
      let (anchor, tag) ← properties
      let typing ← typing tag
      let next ← peek
      checkFresh anchor
      let seq := addCollection anchor (typing.collectionType .seq)
      let map := addCollection anchor (typing.collectionType .map)
      match next with
      | .scalar text plain => do
        skip
        add anchor ⟨typing.scalarType plain text, .scalar text⟩
      | .flowSequenceStart => do
        skip
        seq (do return .seq (← flowItems true fuel))
      | .flowMappingStart => do
        skip
        map (do return .map (← flowEntries true fuel))
      | _ =>
        if dashes && next == .blockEntry then
          seq (do return .seq (← dashItems fuel))
        else if block && next == .blockSequenceStart then do
          skip
          seq (do return .seq (← blockItems fuel))
        else if block && next == .blockMappingStart then do
          skip
          map (do return .map (← blockEntries fuel))
        else if anchor.isSome || tag.isSome then
          add anchor ⟨typing.scalarType true [], .scalar []⟩
        else throw .invalid

/-- A node, or an empty one before a token that cannot start one. -/
def nodeBefore (enders : List Token) (block dashes : Bool) : Nat → NodeReader Nat
  | 0 => throw .invalid
  | fuel + 1 => do
    if ← sees enders then addEmpty else node block dashes fuel

def blockItems : Nat → NodeReader (List Nat)
  | 0 => throw .invalid
  | fuel + 1 => do
    if ← accept .blockEntry then
      let first ← nodeBefore [.blockEntry, .blockEnd] true false fuel
      return first :: (← blockItems fuel)
    else
      expect .blockEnd
      return []

def dashItems : Nat → NodeReader (List Nat)
  | 0 => throw .invalid
  | fuel + 1 => do
    if ← accept .blockEntry then
      let first ← nodeBefore [.blockEntry, .key, .value, .blockEnd] true false fuel
      return first :: (← dashItems fuel)
    else return []

/-- Key and value may each be left out, but not both. -/
def blockEntries : Nat → NodeReader (List (Nat × Nat))
  | 0 => throw .invalid
  | fuel + 1 => do
    let enders : List Token := [.key, .value, .blockEnd]
    if ← accept .key then
      let key ← nodeBefore enders true true fuel
      let value ← if ← accept .value then nodeBefore enders true true fuel else addEmpty
      return (key, value) :: (← blockEntries fuel)
    else
      expect .blockEnd
      return []

/-- An entry of a bracketed sequence may be a mapping of one key without brackets of its own. -/
def flowItems (first : Bool) : Nat → NodeReader (List Nat)
  | 0 => throw .invalid
  | fuel + 1 => do
    if ← accept .flowSequenceEnd then return []
    else
      unless first do expect .flowEntry
      if ← accept .key then
        let key ← nodeBefore [.value, .flowEntry, .flowSequenceEnd] false false fuel
        let value ←
          if ← accept .value then nodeBefore [.flowEntry, .flowSequenceEnd] false false fuel
          else addEmpty
        let item ← add none ⟨.map, .map [(key, value)]⟩
        return item :: (← flowItems false fuel)
      else if ← accept .flowSequenceEnd then return []
      else
        let item ← node false false fuel
        return item :: (← flowItems false fuel)

def flowEntries (first : Bool) : Nat → NodeReader (List (Nat × Nat))
  | 0 => throw .invalid
  | fuel + 1 => do
    if ← accept .flowMappingEnd then return []
    else
      unless first do expect .flowEntry
      if ← accept .key then
        let key ← nodeBefore [.value, .flowEntry, .flowMappingEnd] false false fuel
        let value ←
          if ← accept .value then nodeBefore [.flowEntry, .flowMappingEnd] false false fuel
          else addEmpty
        return (key, value) :: (← flowEntries false fuel)
      else if ← accept .flowMappingEnd then return []
      else
        let key ← node false false fuel
        let value ← addEmpty
        return (key, value) :: (← flowEntries false fuel)

end

end NodeReader

end FlowGraph.Yaml
