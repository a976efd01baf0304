import FlowGraph.Text.Cased
import FlowGraph.Text.CodePoint
import FlowGraph.Text.Lowercase

/-!
Case of texts. Lower case is worked out letter by letter, with two exceptions: the dotted capital
I becomes an i and a dot above, and the capital sigma has a small letter of its own at the end of
a word. Upper case is for comparing with ASCII words only, so what matters of the other scripts is
which of their letters turn into ASCII capitals.
-/
namespace FlowGraph.Text

/-- Whether the nearest code point that is not passed over has case. -/
def startsCased (cs : List CodePoint) : Bool :=
  (cs.dropWhile fun c => isPassedOver c.toNat).head?.any fun c => isCased c.toNat

/-- The small letters of a character that stands between some others, the nearest ones first. -/
def lowerChar (before after : List CodePoint) (c : Char) : List Char :=
  if c.toNat < 128 then [c.toLower]
  else if c == 'İ' then ['i', Char.ofNat 0x307]
  else if c == 'Σ' then [if startsCased before && !startsCased after then 'ς' else 'σ']
  else [Char.ofNat (lowerNumber c.toNat)]

/-- Lowers the rest of a text, given what comes before it in reverse. -/
def lowerAfter (before : List CodePoint) : List CodePoint → List CodePoint
  | [] => []
  | .char c :: rest => (lowerChar before rest c).map .char ++ lowerAfter (.char c :: before) rest
  | .half n :: rest => .half n :: lowerAfter (.half n :: before) rest

def lowerCodes (cs : List CodePoint) : List CodePoint := lowerAfter [] cs

def lower (s : String) : String :=
  String.ofList ((lowerCodes (codes s)).filterMap CodePoint.toChar?)

/-- Letters outside ASCII whose capitals are ASCII letters. -/
def asciiCapitals : List (Char × String) := [
  ('ß', "SS"), ('ı', "I"), ('ſ', "S"), ('ﬀ', "FF"), ('ﬁ', "FI"), ('ﬂ', "FL"), ('ﬃ', "FFI"),
  ('ﬄ', "FFL"), ('ﬅ', "ST"), ('ﬆ', "ST")]

/-- Upper case, as far as comparing with an ASCII word needs it. -/
def upper (s : String) : String :=
  String.ofList (s.toList.flatMap fun c =>
    ((asciiCapitals.lookup c).map (·.toList)).getD [c.toUpper])

end FlowGraph.Text
