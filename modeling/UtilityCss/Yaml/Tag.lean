import UtilityCss.Text.Blank
import UtilityCss.Text.Cut

/-!
# Tags

A tag says what a node is to be read as. The common ones share a long beginning. A scalar without a tag gets
one by the look of its text: null, truth values, numbers and dates are told from other texts. What looks like
a number need not be one, since underscores may stand anywhere in it.
-/

namespace UtilityCss.Yaml

inductive Tag
  | null
  | bool
  | int
  | real
  | binary
  | timestamp
  | omap
  | pairs
  | set
  | text
  | list
  | mapping
  /-- The key whose value is merged into a mapping. -/
  | merge
  /-- The key whose value stands for a mapping. -/
  | value
  | unknown
  deriving DecidableEq, Repr

namespace Tag

def commonStart : String := "tag:yaml.org,2002:"

def names : List (String × Tag) := [
  ("null", null), ("bool", bool), ("int", int), ("float", real), ("binary", binary),
  ("timestamp", timestamp), ("omap", omap), ("pairs", pairs), ("set", set), ("str", text),
  ("seq", list), ("map", mapping), ("merge", merge), ("value", value)]

def ofText (s : String) : Tag :=
  ((Text.after? commonStart s).bind fun name => names.lookup name).getD unknown

end Tag

/-! ### The look of a plain scalar -/

namespace Look

def nulls : List String := ["~", "null", "Null", "NULL"]

def truths : List String := [
  "yes", "Yes", "YES", "no", "No", "NO", "true", "True", "TRUE", "false", "False", "FALSE",
  "on", "On", "ON", "off", "Off", "OFF"]

def infinities : List String := [".inf", ".Inf", ".INF"]

def notNumbers : List String := [".nan", ".NaN", ".NAN"]

def withoutSign : List Char → List Char
  | '-' :: cs => cs
  | '+' :: cs => cs
  | cs => cs

def isDigitOrGap (c : Char) : Bool := c.isDigit || c == '_'

def isHexOrGap (c : Char) : Bool := isDigitOrGap c || ('a' ≤ c.toLower && c.toLower ≤ 'f')

def isOctalOrGap (c : Char) : Bool := c == '_' || ('0' ≤ c && c ≤ '7')

def isBinaryOrGap (c : Char) : Bool := c == '_' || c == '0' || c == '1'

def areSome (p : Char → Bool) (cs : List Char) : Bool := !cs.isEmpty && cs.all p

def isSixtieth : List Char → Bool
  | [a] => a.isDigit
  | [a, b] => '0' ≤ a && a ≤ '5' && b.isDigit
  | _ => false

def areSixtieths (begins : Char → Bool) (cs : List Char) : Bool :=
  match Text.pieces (· == ':') cs with
  | (c :: first) :: rest@(_ :: _) => begins c && first.all isDigitOrGap && rest.all isSixtieth
  | _ => false

def isCounting (c : Char) : Bool := '1' ≤ c && c ≤ '9'

def isWhole (cs : List Char) : Bool :=
  match withoutSign cs with
  | ['0'] => true
  | '0' :: 'b' :: digits => areSome isBinaryOrGap digits
  | '0' :: 'x' :: digits => areSome isHexOrGap digits
  | '0' :: digits => areSome isOctalOrGap digits
  | c :: digits =>
    (isCounting c && digits.all isDigitOrGap) || areSixtieths isCounting (c :: digits)
  | [] => false

def isExponent : List Char → Bool
  | [] => true
  | mark :: sign :: digits =>
    (mark == 'e' || mark == 'E') && (sign == '-' || sign == '+') && areSome Char.isDigit digits
  | _ => false

/-- A fraction has a point, and may have an exponent; its sign needs a digit before the point. -/
def isFraction (cs : List Char) : Bool :=
  match cs, withoutSign cs with
  | '.' :: d :: rest, _ => d.isDigit && isExponent (rest.dropWhile isDigitOrGap)
  | _, c :: rest =>
    c.isDigit && match rest.dropWhile isDigitOrGap with
      | '.' :: rest => isExponent (rest.dropWhile isDigitOrGap)
      | _ => false
  | _, [] => false

def isSixtiethsFraction (cs : List Char) : Bool :=
  match Text.firstCut? '.' (withoutSign cs) with
  | some (whole, fraction) => areSixtieths Char.isDigit whole && fraction.all isDigitOrGap
  | none => false

def isReal (cs : List Char) : Bool :=
  isFraction cs || isSixtiethsFraction cs ||
    infinities.contains (String.ofList (withoutSign cs)) || notNumbers.contains (String.ofList cs)

end Look

end UtilityCss.Yaml
