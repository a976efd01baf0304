import FlowGraph.Number.Real
import FlowGraph.Text.Case
import FlowGraph.Value
import FlowGraph.Yaml.Fault

/-!
Scalars: from text to type, and from text and type to value. A text without quotes is a truth
value, a number, null or a point in time if it is written like one, and a string otherwise.
Underscores in numbers are for the eye only, and colons divide numbers of base sixty.
-/
namespace FlowGraph.Yaml

open Text (CodePoint codes ofCodes? lowerCodes)

inductive ScalarType
  | null
  | bool
  | int
  | float
  | binary
  | time
  | text
  /-- The key that merges another mapping. -/
  | merge
  /-- The key that stands for the value of a mapping as a whole. -/
  | value
  deriving DecidableEq, Repr

namespace Scalar

def isDigitOrLine (c : Char) : Bool := c.isDigit || c == '_'

def dropSign : List Char → List Char
  | '-' :: cs => cs
  | '+' :: cs => cs
  | cs => cs

def boolWords : List String := [
  "yes", "Yes", "YES", "no", "No", "NO", "true", "True", "TRUE", "false", "False", "FALSE",
  "on", "On", "ON", "off", "Off", "OFF"]

/-- One or two digits below sixty. -/
def isSixtieth (cs : List Char) : Bool :=
  match cs with
  | [c] => c.isDigit
  | [c, d] => '0' ≤ c && c ≤ '5' && d.isDigit
  | _ => false

def splitColons (cs : List Char) : List (List Char) := cs.splitOn ':'

def isExponent (cs : List Char) : Bool :=
  match cs with
  | [] => true
  | mark :: sign :: digits =>
    (mark == 'e' || mark == 'E') && (sign == '-' || sign == '+') && !digits.isEmpty &&
      digits.all Char.isDigit
  | _ => false

/-- What follows the digits before a point: the point, digits, and an exponent if one may
follow. -/
def isFraction (exponent : Bool) (cs : List Char) : Bool :=
  match cs with
  | '.' :: rest =>
    let tail := rest.dropWhile isDigitOrLine
    if exponent then isExponent tail else tail.isEmpty
  | _ => false

def startsWithDigit (cs : List Char) : Bool := cs.head?.any Char.isDigit

/-- Base sixty with a fraction in the last place. -/
def isSixtyFloat (cs : List Char) : Bool :=
  match splitColons cs with
  | first :: second :: rest =>
    let places := second :: rest
    let last := places.getLast?.getD []
    let whole := last.takeWhile (· != '.')
    startsWithDigit first && first.all isDigitOrLine && places.dropLast.all isSixtieth &&
      isSixtieth whole && isFraction false (last.dropWhile (· != '.'))
  | _ => false

def isFloat (cs : List Char) : Bool :=
  let unsigned := dropSign cs
  (startsWithDigit unsigned && isFraction true (unsigned.dropWhile isDigitOrLine)) ||
  (match cs with
    | '.' :: rest => startsWithDigit rest && isFraction true cs
    | _ => false) ||
  isSixtyFloat unsigned ||
  [".inf", ".Inf", ".INF"].contains (String.ofList unsigned) ||
  [".nan", ".NaN", ".NAN"].contains (String.ofList cs)

def isBinaryDigit (c : Char) : Bool := c == '0' || c == '1' || c == '_'

def isOctalDigit (c : Char) : Bool := ('0' ≤ c && c ≤ '7') || c == '_'

def isHexDigit (c : Char) : Bool :=
  isDigitOrLine c || ('a' ≤ c && c ≤ 'f') || ('A' ≤ c && c ≤ 'F')

def isInt (cs : List Char) : Bool :=
  match dropSign cs with
  | [] => false
  | '0' :: rest =>
    rest.all isOctalDigit ||
      (match rest with
        | 'b' :: digits => !digits.isEmpty && digits.all isBinaryDigit
        | 'x' :: digits => !digits.isEmpty && digits.all isHexDigit
        | _ => false)
  | unsigned =>
    match splitColons unsigned with
    | first :: places =>
      startsWithDigit first && first.all isDigitOrLine && places.all isSixtieth
    | [] => false

/-- Some digits at the front, at least `least` and at most `most`. -/
def takeDigits? (least most : Nat) (cs : List Char) : Option (Nat × List Char) :=
  let digits := (cs.take most).takeWhile Char.isDigit
  if digits.length < least then none
  else some (Number.ofDigits 10 (digits.map (·.toNat - 48)), cs.drop digits.length)

def takeChar? (c : Char) : List Char → Option (List Char)
  | d :: cs => if d == c then some cs else none
  | [] => none

/-- The parts of a point in time, as written. -/
structure TimeParts where
  hour : Nat
  minute : Nat
  second : Nat
  fraction : List Char
  /-- The distance from universal time, in minutes. -/
  offset : Option Int

structure DateParts where
  year : Nat
  month : Nat
  day : Nat
  /-- Month and day have two digits each. -/
  padded : Bool

def takeDate? (cs : List Char) : Option (DateParts × List Char) := do
  let (year, cs) ← takeDigits? 4 4 cs
  let cs ← takeChar? '-' cs
  let (month, afterMonth) ← takeDigits? 1 2 cs
  let monthWidth := cs.length - afterMonth.length
  let cs ← takeChar? '-' afterMonth
  let (day, afterDay) ← takeDigits? 1 2 cs
  let dayWidth := cs.length - afterDay.length
  some (⟨year, month, day, monthWidth == 2 && dayWidth == 2⟩, afterDay)

def isGap (c : Char) : Bool := c == ' ' || c == '\t'

/-- The distance from universal time at the end of a text: nothing, the letter for none, or a sign
and hours with optional minutes. -/
def offset? (cs : List Char) : Option (Option Int) :=
  match cs.dropWhile isGap with
  | [] => if cs.isEmpty then some none else none
  | ['Z'] => some (some 0)
  | sign :: rest => do
    guard (sign == '-' || sign == '+')
    let (hours, rest) ← takeDigits? 1 2 rest
    let minutes ← match rest with
      | [] => some 0
      | ':' :: rest => do
        let (minutes, rest) ← takeDigits? 2 2 rest
        guard rest.isEmpty
        some minutes
      | _ => none
    let size : Int := hours * 60 + minutes
    some (some (if sign == '-' then -size else size))

def time? (cs : List Char) : Option TimeParts := do
  let cs ← match cs with
    | [] => none
    | c :: rest =>
      if c == 'T' || c == 't' then some rest
      else if isGap c then some (rest.dropWhile isGap)
      else none
  let (hour, cs) ← takeDigits? 1 2 cs
  let cs ← takeChar? ':' cs
  let (minute, cs) ← takeDigits? 2 2 cs
  let cs ← takeChar? ':' cs
  let (second, cs) ← takeDigits? 2 2 cs
  let (fraction, cs) := match cs with
    | '.' :: rest => (rest.takeWhile Char.isDigit, rest.dropWhile Char.isDigit)
    | _ => ([], cs)
  let offset ← offset? cs
  some ⟨hour, minute, second, fraction, offset⟩

/-- A day, or a day and a time. -/
def moment? (cs : List Char) : Option (DateParts × Option TimeParts) := do
  let (date, rest) ← takeDate? cs
  if rest.isEmpty then some (date, none)
  else do
    let time ← time? rest
    some (date, some time)

/-- A day alone is one only with two digits for month and day. -/
def isTime (cs : List Char) : Bool :=
  match moment? cs with
  | some (date, none) => date.padded
  | some (_, some _) => true
  | none => false

/-- One line feed at the end does not count against a text's shape. -/
def dropFinalBreak (cs : List Char) : List Char :=
  if cs.getLast? == some '\n' then cs.dropLast else cs

/-- The type of a text of characters without quotes. -/
def typeOfString? (s : String) : Option ScalarType :=
  let cs := dropFinalBreak s.toList
  let word := String.ofList cs
  if boolWords.contains word then some .bool
  else if isFloat cs then some .float
  else if isInt cs then some .int
  else if word == "<<" then some .merge
  else if ["~", "null", "Null", "NULL", ""].contains word then
    (if word == "" && s != "" then some .text else some .null)
  else if isTime cs then some .time
  else if word == "=" then some .value
  else if ["!", "&", "*"].contains word then none
  else some .text

/-- The type of a text without quotes; none for a lone mark of an anchor, alias or tag. -/
def typeOf? (cs : List CodePoint) : Option ScalarType :=
  match ofCodes? cs with
  | some s => typeOfString? s
  | none => some .text

def withoutLines (cs : List CodePoint) : List CodePoint := cs.filter (· != .char '_')

/-- The sign in front of a number and what follows it; a number without text is refused. -/
def splitSign : List CodePoint → Except Fault (Bool × List CodePoint)
  | [] => .error .emptyNumber
  | .char '-' :: cs => .ok (true, cs)
  | .char '+' :: cs => .ok (false, cs)
  | cs => .ok (false, cs)

def splitPlaces (cs : List CodePoint) : List (List CodePoint) := cs.splitOn (.char ':')

def readPart (base : Nat) (cs : List CodePoint) : Except Fault Int :=
  (Number.readInteger base cs).mapError .integer

/-- Places of base sixty, the highest first. -/
def sixtyInt (places : List Int) : Int := places.foldl (fun n d => n * 60 + d) 0

def magnitude (cs : List CodePoint) : Except Fault Int :=
  match cs with
  | [] => .error .emptyNumber
  | [.char '0'] => .ok 0
  | .char '0' :: .char 'b' :: digits => readPart 2 digits
  | .char '0' :: .char 'x' :: digits => readPart 16 digits
  | .char '0' :: _ => readPart 8 cs
  | _ => do
    let places := splitPlaces cs
    if places.length > 1 then .ok (sixtyInt (← places.mapM (readPart 10)))
    else readPart 10 cs

def readInt (cs : List CodePoint) : Except Fault Int := do
  let (negative, unsigned) ← splitSign (withoutLines cs)
  let n ← magnitude unsigned
  .ok (if negative then -n else n)

def readReal (cs : List CodePoint) : Except Fault Float :=
  match Number.readFloat? cs with
  | some x => .ok x
  | none => .error (.float cs)

/-- Adds up places of base sixty, the lowest first, from a place whose weight is given. -/
def addPlaces (total : Float) (weight : Nat) : List Float → Except Fault Float
  | [] => .ok total
  | d :: ds =>
    let scale := Float.ofNat weight
    if scale.isInf then .error .highPlace
    else addPlaces (total + d * scale) (weight * 60) ds

def floatMagnitude (cs : List CodePoint) : Except Fault Float :=
  if cs == codes ".inf" then .ok Number.infinity
  else if cs == codes ".nan" then .ok Number.notANumber
  else do
    let places := splitPlaces cs
    if places.length > 1 then addPlaces 0.0 1 (← places.mapM readReal).reverse
    else readReal cs

def readFloat (cs : List CodePoint) : Except Fault Float := do
  let (negative, unsigned) ← splitSign (lowerCodes (withoutLines cs))
  let x ← floatMagnitude unsigned
  .ok (if negative then -x else x)

/-- Whether a text is the format's own word for not-a-number, with or without a sign. -/
def isNotANumber (cs : List CodePoint) : Bool :=
  match splitSign (lowerCodes (withoutLines cs)) with
  | .ok (_, word) => word == codes ".nan"
  | .error _ => false

def readBool (cs : List CodePoint) : Except Fault Bool :=
  let word := lowerCodes cs
  if (["yes", "true", "on"].map codes).contains word then .ok true
  else if (["no", "false", "off"].map codes).contains word then .ok false
  else .error (.truth word)

/-- The first six digits of a fraction, filled up with zeros. -/
def microseconds (digits : List Char) : Nat :=
  Number.ofDigits 10 ((digits ++ List.replicate 6 '0').take 6 |>.map (·.toNat - 48))

def readTime (cs : List CodePoint) : Except Fault Value :=
  match (ofCodes? cs).bind fun s => moment? (dropFinalBreak s.toList) with
  | none => .error .notMoment
  | some (d, none) => ((Date.check d.year d.month d.day).map .date).mapError .calendar
  | some (d, some t) =>
    ((Moment.check d.year d.month d.day t.hour t.minute t.second (microseconds t.fraction)
      t.offset).map .moment).mapError .calendar

def sextet? (c : Char) : Option Nat :=
  if 'A' ≤ c && c ≤ 'Z' then some (c.toNat - 65)
  else if 'a' ≤ c && c ≤ 'z' then some (c.toNat - 71)
  else if c.isDigit then some (c.toNat + 4)
  else if c == '+' then some 62
  else if c == '/' then some 63
  else none

/-- Reads base 64. `place` counts the sextets of the current group, `left` holds the bits not yet
written, and `pads` counts the equal signs in a row. Other characters are passed over, and a
complete padding ends the text. -/
def decodeSextets : List Char → Nat → Nat → Nat → Option (List UInt8)
  | [], place, _, _ => if place == 0 then some [] else none
  | c :: cs, place, left, pads =>
    if c == '=' then
      if place ≥ 2 && place + pads + 1 ≥ 4 then some []
      else decodeSextets cs place left (if place ≥ 2 then pads + 1 else pads)
    else match sextet? c with
      | none => decodeSextets cs place left pads
      | some n =>
        match place with
        | 0 => decodeSextets cs 1 n 0
        | 1 => (decodeSextets cs 2 (n % 16) 0).map ((left * 4 + n / 16).toUInt8 :: ·)
        | 2 => (decodeSextets cs 3 (n % 4) 0).map ((left * 16 + n / 4).toUInt8 :: ·)
        | _ => (decodeSextets cs 0 0 0).map ((left * 64 + n).toUInt8 :: ·)

def readBinary (cs : List CodePoint) : Except Fault (List UInt8) :=
  if cs.all fun c => c.toNat < 128 then
    match decodeSextets (cs.filterMap CodePoint.toChar?) 0 0 0 with
    | some bytes => .ok bytes
    | none => .error .invalid
  else .error .invalid

/-- The value of a text of a given type. The two special keys have no value. -/
def read (cs : List CodePoint) : ScalarType → Except Fault Value
  | .null => .ok .null
  | .bool => (readBool cs).map .bool
  | .int => (readInt cs).map .int
  | .float => (readFloat cs).map .float
  | .binary => (readBinary cs).map .bytes
  | .time => readTime cs
  | .text => .ok (.ofCodes cs)
  | .merge => .error .invalid
  | .value => .error .invalid

end Scalar

end FlowGraph.Yaml
