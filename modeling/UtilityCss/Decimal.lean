import UtilityCss.Text.Blank
import UtilityCss.Text.Cut

/-!
# Decimal numbers

Lengths, percentages and opacities are exact decimals: a coefficient times a power of ten. `render` writes
one in plain digits, with no exponent, no zero at the end of the fraction and no sign on zero. At most
`precision` significant digits are kept.
-/

namespace UtilityCss

structure Decimal where
  negative : Bool := false
  coefficient : Nat
  exponent : Int := 0
  deriving DecidableEq, Repr

namespace Decimal

def ofNat (n : Nat) : Decimal := { coefficient := n }

def hundredths (n : Nat) : Decimal := { coefficient := n, exponent := -2 }

def millionths (n : Nat) : Decimal := { coefficient := n, exponent := -6 }

def quarter (d : Decimal) : Decimal :=
  { d with coefficient := 25 * d.coefficient, exponent := d.exponent - 2 }

def roundHalfUp (num den : Nat) : Nat := (2 * num + den) / (2 * den)

def roundHalfEven (num den : Nat) : Nat :=
  let q := num / den
  let r := num % den
  if 2 * r < den ∨ (2 * r = den ∧ q % 2 = 0) then q else q + 1

def tenTo (n : Nat) : Nat := Nat.pow 10 n

def precision : Nat := 28

/-- A coefficient longer than the precision is rounded to it, a half going to the even neighbour. -/
def rounded (d : Decimal) : Decimal :=
  let excess := (Nat.toDigits 10 d.coefficient).length - precision
  { d with
    coefficient := roundHalfEven d.coefficient (tenTo excess)
    exponent := d.exponent + excess }

def significantDigits (n : Nat) : List Char × Nat :=
  let digits := Nat.toDigits 10 n
  let kept := Text.stripEnd (· == '0') digits
  (kept, digits.length - kept.length)

def placePoint (digits : List Char) (places : Nat) : List Char :=
  let padded := List.replicate (places + 1 - digits.length) '0' ++ digits
  padded.take (padded.length - places) ++ '.' :: padded.drop (padded.length - places)

def render (d : Decimal) : String :=
  let d := d.rounded
  let (digits, zeros) := significantDigits d.coefficient
  if digits.isEmpty then "0"
  else
    let exponent := d.exponent + zeros
    let plain :=
      if 0 ≤ exponent then digits ++ List.replicate exponent.toNat '0'
      else placePoint digits (-exponent).toNat
    String.ofList (if d.negative then '-' :: plain else plain)

def signed (cs : List Char) : Bool × List Char :=
  match cs with
  | '-' :: rest => (true, rest)
  | '+' :: rest => (false, rest)
  | _ => (false, cs)

def exponentOf? (cs : List Char) : Option Int :=
  let (negative, digits) := signed cs
  (Text.digits? digits.length digits).map fun n => if negative then -Int.ofNat n else n

def ofChars? (cs : List Char) : Option Decimal := do
  let (negative, cs) := signed cs
  let isMark := fun c : Char => c == 'e' || c == 'E'
  let mantissa := cs.takeWhile fun c => !isMark c
  let exponent ← match cs.drop mantissa.length with
    | [] => some 0
    | _ :: rest => exponentOf? rest
  let (whole, fraction) := (Text.firstCut? '.' mantissa).getD (mantissa, [])
  let digits := whole ++ fraction
  let coefficient ← Text.digits? digits.length digits
  some { negative, coefficient, exponent := exponent - fraction.length }

def ofText? (s : String) : Option Decimal :=
  ofChars? ((Text.strip Text.isBlank s.toList).filter (· != '_'))

end Decimal

end UtilityCss
