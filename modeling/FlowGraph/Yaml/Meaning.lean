import FlowGraph.Yaml.Document
import FlowGraph.Yaml.Node

/-!
The data that nodes stand for. A collection is put down empty when it is met and filled later, in
the order of meeting, so of several faults the one that comes up first in that order counts, and a
collection that contains itself needs no special care. A merge key stands for the entries of other
mappings; the mapping's own entries come after them and win, and of several merged mappings the
earlier ones win. Merging changes the nodes, and all places that share them see the change.
-/
namespace FlowGraph.Yaml

structure Valuation where
  nodes : Array Node
  /-- At least the number of merge keys left in the nodes. -/
  mergeKeys : Nat
  /-- The data of the nodes met so far. -/
  data : Array (Option Datum)
  collections : Array (Option Collection)
  /-- The collections still to be filled, the last one met first. -/
  pending : List Nat := []

abbrev Valuing := StateT Valuation (Except Fault)

namespace Valuing

def node (place : Nat) : Valuing Node := do
  return ((← get).nodes[place]?).getD .empty

def setNode (place : Nat) (n : Node) : Valuing Unit :=
  modify fun s => { s with nodes := s.nodes.setIfInBounds place n }

/-- The entries of a mapping. -/
def entries (place : Nat) : Valuing (List (Nat × Nat)) := do
  match (← node place).content with
  | .map entries => return entries
  | _ => throw .invalid

def setEntries (place : Nat) (entries : List (Nat × Nat)) : Valuing Unit := do
  setNode place { ← node place with content := .map entries }

def isMergeKey (place : Nat) : Valuing Bool := do
  return (← node place).type == .scalar .merge

/-- As part of a mapping, the key for the value of a mapping is an ordinary text. -/
def settleKey (place : Nat) : Valuing Unit := do
  let n ← node place
  if n.type == .scalar .value then setNode place { n with type := .scalar .text }

/-- The entries up to the first merge key, and how many they are; that key is taken out and the
node merged by it is given back. -/
def takeMerge? (place : Nat) : Nat → List (Nat × Nat) → Valuing (Option (Nat × Nat))
  | _, [] => return none
  | index, (key, value) :: rest => do
    if ← isMergeKey key then
      setEntries place ((← entries place).eraseIdx index)
      return some (index, value)
    else
      settleKey key
      takeMerge? place (index + 1) rest

/-- The entries that a merged node brings in, once its own merges are carried out. -/
def broughtIn (flatten : Nat → Valuing Unit) (merged : Nat) : Valuing (List (Nat × Nat)) := do
  let flattened := fun (place : Nat) => do
    let _ ← entries place
    flatten place
    entries place
  match (← node merged).content with
  | .map _ => flattened merged
  | .seq items => return (← items.mapM flattened).reverse.flatten
  | .scalar _ => throw .invalid

/-- Puts entries in front of those of a mapping. -/
def prepend (place : Nat) (brought : List (Nat × Nat)) : Valuing Unit := do
  unless brought.isEmpty do setEntries place (brought ++ (← entries place))

/-- Carries out the merges of a mapping from an index on, and gives the entries to be put in front
of it. Every step takes out a merge key, and none is ever put back, so their number bounds the
run. -/
def merges : Nat → Nat → Nat → List (Nat × Nat) → Valuing (List (Nat × Nat))
  | 0, _, _, brought => return brought
  | fuel + 1, place, index, brought => do
    match ← takeMerge? place index ((← entries place).drop index) with
    | none => return brought
    | some (index, merged) =>
      let flatten := fun (inner : Nat) => do prepend inner (← merges fuel inner 0 [])
      let more ← broughtIn flatten merged
      merges fuel place index (brought ++ more)

/-- Carries out the merges of a mapping. -/
def flatten (place : Nat) : Valuing Unit := do
  prepend place (← merges ((← get).mergeKeys + 1) place 0 [])

/-- The text that a node of a scalar type goes by: its own, or that of the value key of a
mapping. -/
def scalarText : Nat → Nat → Valuing (List Text.CodePoint)
  | 0, _ => throw .endless
  | fuel + 1, place => do
    match (← node place).content with
    | .scalar text => return text
    | .seq _ => throw .invalid
    | .map entries =>
      match ← entries.findM? fun (key, _) => do return (← node key).type == .scalar .value with
      | some (_, value) => scalarText fuel value
      | none => throw .invalid

/-- The datum of a scalar type. A point in time must be written out. -/
def scalar (place : Nat) (type : ScalarType) : Valuing Datum := do
  let n ← node place
  let text ← scalarText ((← get).nodes.size + 1) place
  if let (.time, .map _) := (type, n.content) then throw .mappedMoment
  match ← (Scalar.read text type : Except Fault Value) with
  | .float x =>
    if x.isNaN then return .notANumber (if Scalar.isNotANumber text then none else some place)
    else return .scalar (.float x)
  | v => return .scalar v

/-- The datum of a node that is met for the first time. A collection is left to be filled
later. -/
def firstDatum (place : Nat) : Valuing Datum := do
  match (← node place).type with
  | .scalar .merge => throw .invalid
  | .scalar .value => throw .invalid
  | .scalar type => scalar place type
  | .unknown => throw .invalid
  | _ =>
    modify fun s => { s with pending := place :: s.pending }
    return .collection place

/-- The datum of a node. A node met before has the same datum again. -/
def datum (place : Nat) : Valuing Datum := do
  match (← get).data[place]?.join with
  | some known => return known
  | none =>
    let met ← firstDatum place
    modify fun s => { s with data := s.data.setIfInBounds place (some met) }
    return met

/-- The entries of a mapping, merges included. No collection can be a key. -/
def mapEntries (place : Nat) : Valuing (List (Datum × Datum)) := do
  let _ ← entries place
  flatten place
  (← entries place).foldlM (fun acc (key, value) => do
    let k ← datum key
    if k.isCollection then throw .invalid
    return Datum.put acc k (← datum value)) []

/-- An item of a sequence of pairs is a mapping with one entry, which may have any key. -/
def pairEntry (place : Nat) : Valuing (Datum × Datum) := do
  match ← entries place with
  | [(key, value)] => return (← datum key, ← datum value)
  | _ => throw .invalid

def items (place : Nat) : Valuing (List Nat) := do
  match (← node place).content with
  | .seq items => return items
  | _ => throw .invalid

/-- What a collection holds. Only now it shows whether its content is of the right sort. -/
def contents (place : Nat) : Valuing Collection := do
  match (← node place).type with
  | .seq => return .list (← (← items place).mapM datum)
  | .pairs => return .pairs (← (← items place).mapM pairEntry)
  | .set => return .set ((← mapEntries place).map (·.1))
  | _ => return .map (← mapEntries place)

def fill (place : Nat) : Valuing Unit := do
  let held ← contents place
  modify fun s => { s with collections := s.collections.setIfInBounds place (some held) }

/-- Fills all pending collections, then those met on the way, and so on. Every round fills at
least one collection, and none is filled twice. -/
def fillAll : Nat → Valuing Unit
  | 0 => return
  | fuel + 1 => do
    match (← get).pending.reverse with
    | [] => return
    | round => do
      modify fun s => { s with pending := [] }
      round.forM fill
      fillAll fuel

end Valuing

namespace NodeTable

/-- How many entries the mappings have together. -/
def entryCount (t : NodeTable) : Nat :=
  t.nodes.foldl (fun count n => match n.content with
    | .map entries => count + entries.length
    | _ => count) 0

def toDocument (t : NodeTable) : Except Fault Document := do
  let size := t.nodes.size
  let valuing : Valuing Datum := do
    let root ← Valuing.datum t.root
    Valuing.fillAll (size + 1)
    return root
  let (root, s) ← valuing
    { nodes := t.nodes, mergeKeys := t.entryCount
      data := Array.replicate size none, collections := Array.replicate size none }
  .ok ⟨s.collections, root⟩

end NodeTable

end FlowGraph.Yaml
