import FlowGraph.Members
import FlowGraph.Number.Real

/-!
Documents: the data that a text stands for. Lists, sets and maps are numbered, and data refer to
them by number, because a collection may stand in several places and may contain itself. The value
of a datum is the tree of everything in it, cut where a list or map would occur within itself.
-/
namespace FlowGraph.Yaml

/-- A scalar, or a collection by its number. What is not a number has an origin, and counts as
equal only to what comes from the same one; the format's own word for it is an origin of its
own. -/
inductive Datum
  | scalar (v : Value)
  | notANumber (origin : Option Nat)
  | collection (number : Nat)

namespace Datum

def same : Datum → Datum → Bool
  | scalar a, scalar b => a.same b
  | notANumber a, notANumber b => a == b
  | _, _ => false

def isCollection : Datum → Bool
  | collection _ => true
  | _ => false

/-- Sets a key. A new key goes to the end; a present one keeps its place and takes the new
datum. -/
def put (entries : List (Datum × Datum)) (key datum : Datum) : List (Datum × Datum) :=
  if entries.any fun e => e.1.same key then
    entries.map fun e => if e.1.same key then (e.1, datum) else e
  else entries ++ [(key, datum)]

end Datum

inductive Collection
  | list (items : List Datum)
  /-- A list of pairs. -/
  | pairs (items : List (Datum × Datum))
  | set (members : List Datum)
  | map (entries : List (Datum × Datum))

/-- The value of a collection, made of those of its parts. -/
def Collection.value {m : Type → Type} [Monad m] (part : Datum → m Value) : Collection → m Value
  | .list items => do return .list (← items.mapM part)
  | .pairs items => do
    return .list (← items.mapM fun (a, b) => do return .pair (← part a) (← part b))
  | .set members => do return .set (Members.inOrder (← members.mapM part))
  | .map entries => do
    return .map (← entries.mapM fun (k, v) => do return (← part k, ← part v))

/-- Numbered collections, with holes where a number belongs to a scalar, and the datum at the
top. -/
structure Document where
  collections : Array (Option Collection)
  root : Datum

namespace Document

/-- What a text without documents stands for. -/
def null : Document := ⟨#[], .scalar .null⟩

def collection (d : Document) (number : Nat) : Collection :=
  (d.collections[number]?.join).getD (.list [])

/-- Values of some of the collections, by number. -/
abbrev Known := Array (Option Value)

/-- The value of a datum, if it does not take more than what is known. -/
def known? (known : Known) : Datum → Option Value
  | .scalar v => some v
  | .notANumber _ => some (.float Number.notANumber)
  | .collection number => known[number]?.join

/-- Adds the value of a collection whose parts are all known. -/
def learn (d : Document) (known : Known) (number : Nat) : Known :=
  match d.collections[number]?.join, known[number]?.join with
  | some c, none => known.setIfInBounds number (c.value (known? known))
  | _, _ => known

/-- Goes through all collections, the inner ones of a tree first, until nothing new is learnt. -/
def learnAll (d : Document) : Nat → Known → Known
  | 0, known => known
  | fuel + 1, known =>
    let more := (List.range d.collections.size).reverse.foldl d.learn known
    if more.countP Option.isSome == known.countP Option.isSome then more else d.learnAll fuel more

/-- The values of all collections from which no cycle can be reached. Each of them is made once,
however often it occurs. -/
def settled (d : Document) : Known :=
  d.learnAll d.collections.size (Array.replicate d.collections.size none)

/-- What stands for a collection within itself. -/
def within : Collection → Value
  | .list _ => .outerList
  | .pairs _ => .outerList
  | .set _ => .set []
  | .map _ => .outerMap

/-- The value of a datum inside some collections, none of which is entered again. -/
def valueInside (d : Document) (known : Known) : Nat → List Nat → Datum → Value
  | _, _, .scalar v => v
  | _, _, .notANumber _ => .float Number.notANumber
  | 0, _, .collection number => within (d.collection number)
  | depth + 1, path, .collection number =>
    match known[number]?.join with
    | some v => v
    | none =>
      if path.contains number then within (d.collection number)
      else Id.run ((d.collection number).value fun part =>
        pure (d.valueInside known depth (number :: path) part))

/-- The value of a datum, given those of the settled collections. No path through a document is
longer than the number of its collections. -/
def value (d : Document) (known : Known) (datum : Datum) : Value :=
  d.valueInside known (d.collections.size + 1) [] datum

/-- A datum without its parts: a scalar as it is, and an empty collection of the same sort. -/
def outline (d : Document) (datum : Datum) : Value :=
  match datum with
  | .scalar v => v
  | .notANumber _ => .float Number.notANumber
  | .collection number =>
    match d.collection number with
    | .list _ => .list []
    | .pairs _ => .list []
    | .set _ => .set []
    | .map _ => .map []

end Document

end FlowGraph.Yaml
