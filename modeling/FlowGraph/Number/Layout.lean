import FlowGraph.Number.Shortest

/-!
Decimal text of floating-point numbers. The digits are the shortest ones; a record says how they
are laid out, with the point among the digits or with an exponent.
-/
namespace FlowGraph.Number

/-- Layout decisions. The point's place counts the digits before it, and is zero or negative for a
number below one. -/
structure Layout where
  leastPoint : Int
  mostPoint : Int
  exponentWidth : Nat

def padLeft (width : Nat) (s : String) : String :=
  String.ofList (List.replicate (width - s.length) '0') ++ s

def Layout.positional (digits : String) (point : Int) : String :=
  let cs := digits.toList
  if point ≤ 0 then
    "0." ++ String.ofList (List.replicate (-point).toNat '0') ++ digits
  else if point ≥ cs.length then
    digits ++ String.ofList (List.replicate (point.toNat - cs.length) '0') ++ ".0"
  else
    String.ofList (cs.take point.toNat) ++ "." ++ String.ofList (cs.drop point.toNat)

def Layout.scientific (layout : Layout) (digits : String) (point : Int) : String :=
  let mark := if point - 1 < 0 then "e-" else "e+"
  let head := match digits.toList with
    | [] => ""
    | [c] => String.singleton c
    | c :: cs => String.singleton c ++ "." ++ String.ofList cs
  head ++ mark ++ padLeft layout.exponentWidth (toString (point - 1).natAbs)

def Layout.decimal (layout : Layout) (d : Decimal) : String :=
  let digits := toString d.digits
  let point := (digits.length : Int) + d.exponent
  if layout.leastPoint ≤ point && point ≤ layout.mostPoint then Layout.positional digits point
  else layout.scientific digits point

def Layout.float (layout : Layout) (x : Float) : String :=
  let bits := x.toBits
  let magnitude := bits &&& 0x7fffffffffffffff
  let sign := if bits >>> 63 == 1 then "-" else ""
  if magnitude > 0x7ff0000000000000 then "nan"
  else if magnitude == 0x7ff0000000000000 then sign ++ "inf"
  else if magnitude == 0 then sign ++ "0.0"
  else sign ++ layout.decimal (Finite.ofBits magnitude).shortest

end FlowGraph.Number
