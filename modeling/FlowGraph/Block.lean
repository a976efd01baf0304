import FlowGraph.Fault

/-!
Basic blocks and the edges between them. A block spans the instructions from its start up to, and
not including, its stop, and lists the ids of its outgoing and incoming edges. A frozen block
never changes again.
-/
namespace FlowGraph

inductive EdgeKind
  | fallthrough
  | trueBranch
  | falseBranch
  deriving DecidableEq, Repr

namespace EdgeKind

def all : List EdgeKind := [fallthrough, trueBranch, falseBranch]

def name : EdgeKind → String
  | fallthrough => "fallthrough"
  | trueBranch => "true_branch"
  | falseBranch => "false_branch"

/-- The name in capitals. -/
def title (k : EdgeKind) : String := k.name.map Char.toUpper

def ofName? (s : String) : Option EdgeKind := all.find? fun k => k.name == s

/-- The place of a kind in the alphabetical order of the names. -/
def rank : EdgeKind → Nat
  | fallthrough => 0
  | falseBranch => 1
  | trueBranch => 2

end EdgeKind

structure Edge where
  id : Int
  source : Int
  target : Int
  kind : EdgeKind
  deriving DecidableEq, Repr

def Edge.text (e : Edge) : String :=
  let kind := e.kind.title
  s!"Edge({e.source} -> {e.target}, {kind})"

/-- The two lists of edges a block keeps. -/
inductive Side
  | outgoing
  | incoming
  deriving DecidableEq, Repr

structure Block where
  id : Int
  start : Int
  stop : Int
  outgoing : List Int := []
  incoming : List Int := []
  terminal : Bool := false
  frozen : Bool := false
  deriving DecidableEq, Repr

/-- A new content for one of a block's attributes. -/
inductive Attribute
  | id (i : Int)
  | start (i : Int)
  | stop (i : Int)
  | terminal (b : Bool)
  | edges (side : Side) (ids : List Int)
  deriving DecidableEq, Repr

namespace Block

def lastIndex (b : Block) : Int := b.stop - 1

def contains (b : Block) (i : Int) : Bool := decide (b.start ≤ i ∧ i < b.stop)

def length (b : Block) : Except Fault Int :=
  if b.stop - b.start < 0 then .error .negativeLength
  else if Position.fits (b.stop - b.start) then .ok (b.stop - b.start)
  else .error .hugeLength

def text (b : Block) : String :=
  s!"BasicBlock(id={b.id}, range=[{b.start}, {b.stop}))"

def edges (b : Block) : Side → List Int
  | .outgoing => b.outgoing
  | .incoming => b.incoming

def withEdges (b : Block) : Side → List Int → Block
  | .outgoing, ids => { b with outgoing := ids }
  | .incoming, ids => { b with incoming := ids }

def refusal (b : Block) : Fault := .failure (.frozenBlock b.id)

def withAttribute (b : Block) : Attribute → Block
  | .id i => { b with id := i }
  | .start i => { b with start := i }
  | .stop i => { b with stop := i }
  | .terminal t => { b with terminal := t }
  | .edges side ids => b.withEdges side ids

/-- A frozen block lets nothing of it be set. -/
def set (b : Block) (change : Block → Block) : Except Fault Block :=
  if b.frozen then .error b.refusal else .ok (change b)

def assign (a : Attribute) (b : Block) : Except Fault Block := b.set (·.withAttribute a)

/-- Seals the two lists one after the other and sets the flag last, since nothing can be set after
it. A sealed list holds the ids it held, and is told from an open one by the flag. -/
def freeze (b : Block) : Except Fault Block := do
  let b ← b.assign (.edges .outgoing b.outgoing)
  let b ← b.assign (.edges .incoming b.incoming)
  b.set fun b => { b with frozen := true }

theorem set_eq_ok_iff {b after : Block} {change : Block → Block} :
    b.set change = .ok after ↔ b.frozen = false ∧ change b = after := by
  cases h : b.frozen <;> simp [set, h]

/-- Both lists are set while the flag is still down, so no step of freezing an open block is
refused, and the block holds what it held. -/
theorem freeze_eq_ok_iff {b after : Block} :
    b.freeze = .ok after ↔ b.frozen = false ∧ { b with frozen := true } = after := by
  cases h : b.frozen with
  | true => simp [freeze, assign, set, h, bind, Except.bind]
  | false => simp [freeze, assign, set, h, withAttribute, withEdges, bind, Except.bind]

def append (side : Side) (edge : Int) (b : Block) : Except Fault Block :=
  if b.frozen then .error (.sealedList .append)
  else .ok (b.withEdges side (b.edges side ++ [edge]))

/-- Takes out the first occurrence. -/
def remove (side : Side) (edge : Int) (b : Block) : Except Fault Block :=
  if b.frozen then .error (.sealedList .remove)
  else if edge ∈ b.edges side then .ok (b.withEdges side ((b.edges side).erase edge))
  else .error .notListed

end Block

end FlowGraph
