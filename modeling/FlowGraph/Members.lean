import FlowGraph.Ordered
import FlowGraph.Value

/-!
The order in which a set lists its members. Members lie in the slots of a table and are listed
slot by slot. A number belongs into the slot that its residue names; if that is taken, further
slots are tried in a fixed sequence, which first looks at the neighbours where there is room for
that and then jumps. Only numbers have residues, so a set that holds anything else lists its
members as they came.
-/
namespace FlowGraph.Members

/-- Residues are taken modulo this prime, for which the powers of two repeat after 61 steps. -/
def modulus : Nat := Nat.pow 2 61 - 1

/-- A residue with a sign. Minus one is not used and makes way for minus two. -/
def signed (negative : Bool) (r : Nat) : Int :=
  if negative then (if r == 1 then -2 else -(r : Int)) else r

/-- Equal numbers have equal residues, whether they are integers or floats. -/
def floatResidue? (x : Float) : Option Int :=
  let bits := x.toBits
  let magnitude := bits &&& 0x7fffffffffffffff
  let negative := bits >>> 63 == 1
  if magnitude > 0x7ff0000000000000 then none
  else if magnitude == 0x7ff0000000000000 then some (signed negative 314159)
  else
    let f := Number.Finite.ofBits magnitude
    some (signed negative (f.mantissa * Nat.pow 2 (f.exponent % 61).toNat % modulus))

def residue? : Value → Option Int
  | .bool b => some (Value.numberOfBool b)
  | .int i => some (signed (decide (i < 0)) (i.natAbs % modulus))
  | .float x => floatResidue? x
  | _ => none

/-- A table for so many members has eight slots, or if these are more than four, the least power
of two above twice their number. -/
def tableSize (count : Nat) : Nat :=
  if count ≤ 4 then 8 else Nat.pow 2 (2 * count).log2 * 2

/-- How many neighbours are tried before the next jump. -/
def neighbours : Nat := 9

/-- The first free slot among one and its neighbours; these are tried only where all of them
exist. -/
def freeNear? (size : Nat) (taken : List Nat) (slot : Nat) : Option Nat :=
  let reach := if slot + neighbours < size then neighbours else 0
  (List.range (reach + 1)).map (slot + ·) |>.find? fun s => !taken.contains s

/-- The slot for a member, sought from a slot on. The jumps take in more and more of the
residue. -/
def findSlot (size : Nat) (taken : List Nat) : Nat → Nat → Nat → Nat
  | 0, slot, _ => slot
  | fuel + 1, slot, left =>
    match freeNear? size taken slot with
    | some free => free
    | none =>
      let left := left / 32
      findSlot size taken fuel ((slot * 5 + 1 + left) % size) left

/-- Puts members into their slots one after the other. -/
def place (size : Nat) (slots : List (Nat × Value)) : List (Int × Value) → List (Nat × Value)
  | [] => slots
  | (residue, member) :: rest =>
    let word := (residue % Nat.pow 2 64).toNat
    let slot := findSlot size (slots.map (·.1)) (size + 16) (word % size) word
    place size (slots ++ [(slot, member)]) rest

/-- The members in the order in which a set lists them. -/
def inOrder (members : List Value) : List Value :=
  match members.mapM fun m => (residue? m).map fun r => (r, m) with
  | none => members
  | some numbered =>
    let slots := place (tableSize members.length) [] numbered
    (sortBy (fun a b => decide (a.1 ≤ b.1)) slots).map (·.2)

end FlowGraph.Members
