import UtilityCss.Binary64.Numeral
import UtilityCss.Text.Base64
import UtilityCss.Yaml.Fault
import UtilityCss.Yaml.Tag
import UtilityCss.Yaml.Timestamp

/-!
# What scalars mean

A plain scalar is tagged by the look of its text. `Scalar.ofTagged` reads a text as what a tag says: null,
truth values, whole numbers to the bases two, eight, ten and sixteen, numbers with a fraction, both also in
parts of sixty with colons between them, dates, bytes and texts.
-/

namespace UtilityCss

namespace Yaml

/-- The text that the look of a scalar is taken from: a line end behind it is not looked at. -/
def looked (cs : List Char) : List Char := if cs.getLast? = some '\n' then cs.dropLast else cs

def strangeMarks : List String := ["!", "&", "*"]

def Tag.ofPlain (text : String) : Tag :=
  if text.isEmpty then .null
  else
    let cs := looked text.toList
    let word := String.ofList cs
    if Look.truths.contains word then .bool
    else if Look.isReal cs then .real
    else if Look.isWhole cs then .int
    else if word = "<<" then .merge
    else if Look.nulls.contains word then .null
    else if Timestamp.isPlain cs then .timestamp
    else if word = "=" then .value
    else if strangeMarks.contains word then .unknown
    else .text

def signed (cs : List Char) : Bool × List Char :=
  match cs with
  | '-' :: rest => (true, rest)
  | '+' :: rest => (false, rest)
  | cs => (false, cs)

/-! ### Whole numbers -/

def numeral (base : Nat) (cs : List Char) : Except Fault Int :=
  (Numeral.read base (String.ofList cs)).mapError .whole

def parts (cs : List Char) : List (List Char) := Text.pieces (· == ':') cs

def sixtieths (parts : List (List Char)) : Except Fault Int := do
  let digits ← parts.mapM (numeral 10)
  return digits.foldl (fun n digit => 60 * n + digit) 0

def unsignedInt (cs : List Char) : Except Fault Int :=
  match cs with
  | [] => .error .emptyNumber
  | ['0'] => .ok 0
  | '0' :: 'b' :: digits => numeral 2 digits
  | '0' :: 'x' :: digits => numeral 16 digits
  | '0' :: _ => numeral 8 cs
  | cs => if cs.contains ':' then sixtieths (parts cs) else numeral 10 cs

def withoutGaps (cs : List Char) : List Char := cs.filter (· != '_')

def int (text : String) : Except Fault Int :=
  match withoutGaps text.toList with
  | [] => .error .emptyNumber
  | cs =>
    let (negative, rest) := signed cs
    (unsignedInt rest).map fun n => if negative then -n else n

/-! ### Numbers with a fraction -/

def fraction (cs : List Char) : Except Fault Binary64 :=
  match Binary64.ofText? (String.ofList cs) with
  | some x => .ok x
  | none => .error (.real (String.ofList cs))

def sixtiethsFrom (sum : Binary64) (power : Nat) : List Binary64 → Except Fault Binary64
  | [] => .ok sum
  | digit :: digits =>
    match Binary64.ofInt power with
    | .infinite _ => .error .tooGreat
    | unit => sixtiethsFrom (sum.add (digit.mul unit)) (60 * power) digits

def unsignedReal (cs : List Char) : Except Fault Binary64 :=
  if cs = ".inf".toList then .ok (.infinite false)
  else if cs = ".nan".toList then .ok .nan
  else if cs.contains ':' then do
    let digits ← (parts cs).mapM fraction
    sixtiethsFrom Binary64.zero 1 digits.reverse
  else fraction cs

def real (text : String) : Except Fault Binary64 :=
  match (withoutGaps text.toList).map Char.toLower with
  | [] => .error .emptyNumber
  | cs =>
    let (negative, rest) := signed cs
    (unsignedReal rest).map fun x => if negative then x.negated else x

/-! ### Other scalars -/

def truths : List (String × Bool) := [
  ("yes", true), ("no", false), ("true", true), ("false", false), ("on", true), ("off", false)]

def truth (text : String) : Except Fault Bool :=
  match truths.lookup (text.map Char.toLower) with
  | some b => .ok b
  | none => .error (.truth text)

def bytes (text : String) : Except Fault (List UInt8) :=
  if text.toList.all fun c => c.toNat < 128 then
    match Text.Base64.decode? text.toList with
    | some bytes => .ok bytes
    | none => .error .malformed
  else .error .malformed

def timestamp (text : String) : Except Fault Scalar :=
  match Timestamp.read? (looked text.toList) with
  | some meant => (Timestamp.scalar meant).mapError .calendar
  | none => .error (.timestamp text)

end Yaml

def Scalar.ofTagged (text : String) : Yaml.Tag → Except Yaml.Fault Scalar
  | .null => .ok .null
  | .bool => (Yaml.truth text).map .bool
  | .int => (Yaml.int text).map .int
  | .real => (Yaml.real text).map .real
  | .binary => (Yaml.bytes text).map .bytes
  | .timestamp => Yaml.timestamp text
  | .text => .ok (.text text)
  | _ => .error .malformed

end UtilityCss
