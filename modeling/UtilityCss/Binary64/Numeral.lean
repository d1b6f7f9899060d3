import UtilityCss.Binary64
import UtilityCss.Text.Numeral

/-!
# Reading binary floating point

A number is written as a decimal with an optional point and an optional power of ten, as an infinity, or as
what is not a number, with white space around it. Digits of every script count, and an underscore may stand
between two digits.
-/

namespace UtilityCss.Binary64

def infinityWords : List String := ["inf", "infinity"]

def word? (negative : Bool) (cs : List Char) : Option Binary64 :=
  let word := String.ofList (cs.map Char.toLower)
  if infinityWords.contains word then some (infinite negative)
  else if word = "nan" then some nan
  else none

/-- Without its underscores, each of which has to stand between two digits. -/
def withoutUnderscores? : Option Char → List Char → Option (List Char)
  | _, [] => some []
  | previous, '_' :: rest =>
    if previous.any Char.isDigit && rest.head?.any Char.isDigit then
      withoutUnderscores? (some '_') rest
    else none
  | _, c :: rest => (withoutUnderscores? (some c) rest).map (c :: ·)

def ofText? (s : String) : Option Binary64 := do
  let cs := (Text.strip Numeral.isMargin s.toList).map Text.commonDigit
  let (negative, rest) := Decimal.signed cs
  match word? negative rest with
  | some x => some x
  | none =>
    let digits ← withoutUnderscores? none cs
    let d ← Decimal.ofChars? digits
    some (ofDecimal d.negative d.coefficient d.exponent)

end UtilityCss.Binary64
