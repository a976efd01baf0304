/-!
Signed positions in a list. Positions from zero count from the front and negative ones from the
end. A slice clamps its ends to the list and may run backwards.
-/
namespace FlowGraph.Position

/-- Positions are whole numbers of 64 bits, with a sign. -/
def fits (i : Int) : Bool := decide (-(Nat.pow 2 63 : Int) ≤ i ∧ i < Nat.pow 2 63)

/-- The place a signed position names in a list of length `n`. -/
def resolve? (n : Nat) (i : Int) : Option Nat :=
  if 0 ≤ i ∧ i < n then some i.toNat
  else if i < 0 ∧ -(n : Int) ≤ i then some (i + n).toNat
  else none

def get? {α : Type} (xs : List α) (i : Int) : Option α :=
  (resolve? xs.length i).bind fun p => xs[p]?

/-- A slice end between the two bounds; a negative one first counts from the end. -/
def clamp (n : Nat) (low high : Int) (i : Int) : Int :=
  let j := if i < 0 then i + n else i
  if j < low then low else if high < j then high else j

/-- The members from one position up to another. -/
def slice {α : Type} (xs : List α) (start stop : Int) : List α :=
  let a := (clamp xs.length 0 xs.length start).toNat
  let b := (clamp xs.length 0 xs.length stop).toNat
  (xs.take b).drop a

/-- The positions `start, start + step, ...` short of `stop`. -/
def walk (start stop step : Int) : List Int :=
  let count :=
    if 0 < step then (Int.fdiv (stop - start + step - 1) step).toNat
    else (Int.fdiv (start - stop - step - 1) (-step)).toNat
  (List.range count).map fun (k : Nat) => start + step * k

/-- The places of a stepped slice whose ends may be left open. The step is not zero. -/
def stepped (n : Nat) (start stop : Option Int) (step : Int) : List Int :=
  if 0 < step then
    let a := (start.map (clamp n 0 n)).getD 0
    let b := (stop.map (clamp n 0 n)).getD n
    walk a b step
  else
    let a := (start.map (clamp n (-1) (n - 1))).getD (n - 1)
    let b := (stop.map (clamp n (-1) (n - 1))).getD (-1)
    walk a b step

end FlowGraph.Position
