import UtilityCss.Binary64

/-!
# Numbers with a given number of digits

A number is written with so many digits after the point, with a power of ten behind the digits, or with so many
digits in all, in the first way unless it is very great or very small. Halves go to the even neighbour; the
number that is rounded is the exact one.
-/

namespace UtilityCss.Binary64

open Decimal (roundHalfEven tenTo)

inductive Style
  /-- So many digits after the point. -/
  | fixed
  /-- One digit before the point, and a power of ten. -/
  | scientific
  /-- So many digits in all; zeros at the end of the fraction are dropped. -/
  | general
  deriving DecidableEq, Repr

structure Layout where
  style : Style
  /-- How many digits. -/
  places : Nat
  /-- Letters are capitals. -/
  capital : Bool := false
  /-- The point and zeros at the end stand in any case. -/
  full : Bool := false
  deriving DecidableEq, Repr

namespace Layout

def enough : Nat := 1100

/-- Whether zeros at the end are written when more digits are asked for than a number has. -/
def keepsZeros (layout : Layout) : Bool := layout.full || layout.style ≠ .general

def join (layout : Layout) (whole fraction : List Char) : List Char :=
  if fraction.isEmpty && !layout.full then whole else whole ++ '.' :: fraction

def pointed (layout : Layout) (places : Nat) (digits : List Char) : List Char :=
  let digits := List.replicate (places + 1 - digits.length) '0' ++ digits
  let whole := digits.length - places
  layout.join (digits.take whole) (digits.drop whole)

def fixed (layout : Layout) (num den : Nat) : List Char :=
  layout.pointed layout.places
    (Nat.toDigits 10 (roundHalfEven (num * tenTo layout.places) den))

def leading (count num den : Nat) : List Char × Int :=
  if num = 0 then (List.replicate count '0', 0)
  else
    let power := pointPosition num den - 1
    let shift := Int.ofNat count - 1 - power
    let digits := Nat.toDigits 10
      (if 0 ≤ shift then roundHalfEven (num * tenTo shift.toNat) den
        else roundHalfEven num (den * tenTo (-shift).toNat))
    if digits.length = count then (digits, power) else (digits.take count, power + 1)

def powerText (layout : Layout) (power : Int) : List Char :=
  let digits := Nat.toDigits 10 power.natAbs
  (if layout.capital then 'E' else 'e') :: (if power < 0 then '-' else '+') ::
    (List.replicate (2 - digits.length) '0' ++ digits)

def withPower (layout : Layout) (digits : List Char) (power : Int) : List Char :=
  layout.join (digits.take 1) (digits.drop 1) ++ layout.powerText power

def scientific (layout : Layout) (num den : Nat) : List Char :=
  let (digits, power) := leading (layout.places + 1) num den
  layout.withPower digits power

def trimmed (layout : Layout) (least : Nat) (digits : List Char) : List Char :=
  if layout.full then digits
  else digits.take least ++ Text.stripEnd (· == '0') (digits.drop least)

def general (layout : Layout) (num den : Nat) : List Char :=
  let count := max 1 (if layout.full then layout.places else min layout.places enough)
  let (digits, power) := leading count num den
  if power < -4 ∨ count ≤ power then layout.withPower (layout.trimmed 1 digits) power
  else
    let kept := layout.trimmed (power + 1).toNat digits
    layout.pointed (kept.length - 1 - power).toNat kept

def magnitude (layout : Layout) : Binary64 → List Char
  | nan => (if layout.capital then "NAN" else "nan").toList
  | infinite _ => (if layout.capital then "INF" else "inf").toList
  | finite _ mantissa exponent =>
    let (num, den) := ratio mantissa exponent
    match layout.style with
    | .fixed => layout.fixed num den
    | .scientific => layout.scientific num den
    | .general => layout.general num den

end Layout

end UtilityCss.Binary64
