import UtilityCss.Text.Numeral

/-!
# Hexadecimal colors

`#rrggbb` and the short form `#rgb`, which doubles each digit, as three channels.
-/

namespace UtilityCss

structure Rgb where
  red : Int
  green : Int
  blue : Int
  deriving DecidableEq, Repr

namespace Rgb

def hexDigit? (c : Char) : Option Nat :=
  if c.isDigit then some (c.toNat - '0'.toNat)
  else if 'a' ≤ c ∧ c ≤ 'f' then some (c.toNat - 'a'.toNat + 10)
  else if 'A' ≤ c ∧ c ≤ 'F' then some (c.toNat - 'A'.toNat + 10)
  else none

/-- A channel is a numeral to the base sixteen, so that it may be padded with white space and carry a sign. -/
def channel? (cs : List Char) : Option Int := (Numeral.read 16 (String.ofList cs)).toOption

/-- The first three pairs of digits after the leading number signs. -/
def ofHex? (hex : String) : Option Rgb := do
  let digits := hex.toList.dropWhile (· == '#')
  let digits := if digits.length = 3 then digits.flatMap fun c => [c, c] else digits
  let red ← channel? (digits.take 2)
  let green ← channel? ((digits.drop 2).take 2)
  let blue ← channel? ((digits.drop 4).take 2)
  some { red, green, blue }

end Rgb

end UtilityCss
