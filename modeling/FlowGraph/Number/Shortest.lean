/-!
The shortest decimal of a binary floating-point number: the fewest digits that read back to it,
and of those the nearest to it, with an even last digit on a tie. The reals that read back to a
finite value form an interval around it, and each grid of decimals is searched at the two
neighbours of the value, in exact integer arithmetic.
-/
namespace FlowGraph.Number

/-- A positive finite value, `mantissa * 2 ^ exponent`. -/
structure Finite where
  mantissa : Nat
  exponent : Int
  /-- The next smaller value is half as far away as the next larger one. -/
  narrowBelow : Bool

/-- A decimal, `digits * 10 ^ exponent`. -/
structure Decimal where
  digits : Nat
  exponent : Int
  deriving DecidableEq, Repr

/-- Reads the fields of a finite value; the sign is left out. -/
def Finite.ofBits (bits : UInt64) : Finite :=
  let biased := ((bits >>> 52) &&& 0x7ff).toNat
  let fraction := (bits &&& 0xfffffffffffff).toNat
  if biased == 0 then ⟨fraction, -1074, false⟩
  else ⟨Nat.pow 2 52 + fraction, (biased : Int) - 1075, fraction == 0 && biased > 1⟩

/-- Compares `a * 10 ^ i` with `b * 2 ^ j`. -/
def compareScaled (a : Nat) (i : Int) (b : Nat) (j : Int) : Ordering :=
  compare (a * Nat.pow 10 i.toNat * Nat.pow 2 (-j).toNat)
    (b * Nat.pow 2 j.toNat * Nat.pow 10 (-i).toNat)

/-- A decimal reads back to a value when it lies between the midpoints to the value's neighbours;
a midpoint itself goes to the value with the even mantissa. -/
def Finite.readsBack (x : Finite) (d : Decimal) : Bool :=
  let low := if x.narrowBelow then 4 * x.mantissa - 1 else 4 * x.mantissa - 2
  let high := 4 * x.mantissa + 2
  let closed := x.mantissa % 2 == 0
  let fromLow := compareScaled d.digits d.exponent low (x.exponent - 2)
  let fromHigh := compareScaled d.digits d.exponent high (x.exponent - 2)
  (fromLow == .gt || (closed && fromLow == .eq)) &&
    (fromHigh == .lt || (closed && fromHigh == .eq))

/-- The least power of ten above the value, by exponent. -/
def Finite.scale (x : Finite) : Int :=
  let estimate :=
    Int.fdiv (((Nat.log2 x.mantissa : Nat) : Int) * 30103 + x.exponent * 30103) 100000 - 1
  let above := fun (k : Nat) => compareScaled 1 (estimate + k) x.mantissa x.exponent == .gt
  estimate + ((List.range 6).find? above).getD 6

/-- The best decimal on the grid `10 ^ exponent`, if one of the value's two neighbours there reads
back. -/
def Finite.onGrid? (x : Finite) (exponent : Int) : Option Decimal :=
  let top := x.mantissa * Nat.pow 2 x.exponent.toNat * Nat.pow 10 (-exponent).toNat
  let bottom := Nat.pow 2 (-x.exponent).toNat * Nat.pow 10 exponent.toNat
  let below : Decimal := ⟨top / bottom, exponent⟩
  let above : Decimal := ⟨top / bottom + 1, exponent⟩
  match x.readsBack below, x.readsBack above with
  | true, true =>
    match compare (2 * top) ((2 * below.digits + 1) * bottom) with
    | .lt => some below
    | .gt => some above
    | .eq => if below.digits % 2 == 0 then some below else some above
  | true, false => some below
  | false, true => some above
  | false, false => none

/-- Moves up to `limit` trailing zeros of the digits into the exponent. -/
def Decimal.strip : Nat → Decimal → Decimal
  | 0, d => d
  | limit + 1, d =>
    if d.digits % 10 == 0 && d.digits != 0 then
      Decimal.strip limit ⟨d.digits / 10, d.exponent + 1⟩
    else d

/-- Seventeen digits always suffice. -/
def Finite.shortest (x : Finite) : Decimal :=
  let scale := x.scale
  let found := (List.range 17).findSome? fun n => x.onGrid? (scale - (n + 1 : Nat))
  (found.getD ⟨x.mantissa, 0⟩).strip 20

end FlowGraph.Number
