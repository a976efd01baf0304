import FlowGraph.Number.Integer

/-!
Floating-point numbers as people write them: a sign, digits with an optional point, an optional
exponent, or one of the words for infinity and not-a-number.
-/
namespace FlowGraph.Number

def infinity : Float := 1.0 / 0.0

def notANumber : Float := 0.0 / 0.0

/-- Whether digits and exponent put a value beyond every finite number, or below every positive
one. -/
def scaleDecimal (digits : Nat) (exponent : Int) : Float :=
  let point := ((toString digits).length : Int) + exponent
  if digits == 0 || point < -400 then 0.0
  else if point > 400 then infinity
  else if exponent ≥ 0 then Float.ofScientific digits false exponent.toNat
  else Float.ofScientific digits true (-exponent).toNat

def digitRun (cs : List Char) : List Nat × List Char :=
  (cs.takeWhile Char.isDigit |>.map (·.toNat - 48), cs.dropWhile Char.isDigit)

/-- The exponent at the end of a numeral: nothing, or a mark, a sign and at least one digit. -/
def readExponent? : List Char → Option Int
  | [] => some 0
  | mark :: cs =>
    if mark == 'e' || mark == 'E' then
      let (negative, unsigned) := takeSign cs
      match digitRun unsigned with
      | ([], _) => none
      | (ds, []) => some (if negative then -(ofDigits 10 ds : Int) else ofDigits 10 ds)
      | _ => none
    else none

def readDecimal? (cs : List Char) : Option Float :=
  let (whole, afterWhole) := digitRun cs
  let (fraction, tail) := match afterWhole with
    | '.' :: rest => digitRun rest
    | rest => ([], rest)
  if whole.isEmpty && fraction.isEmpty then none
  else (readExponent? tail).map fun e =>
    scaleDecimal (ofDigits 10 (whole ++ fraction)) (e - fraction.length)

def readMagnitude? (cs : List Char) : Option Float :=
  let word := String.ofList (cs.map Char.toLower)
  if word == "inf" || word == "infinity" then some infinity
  else if word == "nan" then some notANumber
  else readDecimal? cs

def readFloat? (text : List Text.CodePoint) : Option Float :=
  let (negative, unsigned) := takeSign (Text.trimBlanks (text.map foldCode))
  (readMagnitude? unsigned).map fun x => if negative then -x else x

end FlowGraph.Number
