import UtilityCss.Decimal

/-!
# Binary floating point in exact arithmetic

A number of the binary64 format is a whole number of at most 53 bits times a power of two, an infinity, or
not a number. Quotients are rounded to the nearest such number, a tie going to the even one. `render` writes
the fewest decimal digits that read back as the same number; of several it takes the nearest.
-/

namespace UtilityCss

inductive Binary64
  | finite (negative : Bool) (mantissa : Nat) (exponent : Int)
  | infinite (negative : Bool)
  | nan
  deriving DecidableEq, Repr

namespace Binary64

def zero : Binary64 := finite false 0 0

open Decimal (tenTo)

def twoTo (n : Nat) : Nat := Nat.pow 2 n

def leastExponent : Int := -1074

def greatestExponent : Int := 971

def scaled (num den : Nat) (shift : Int) : Nat × Nat :=
  if 0 ≤ shift then (num, den * twoTo shift.toNat) else (num * twoTo (-shift).toNat, den)

def exponentOf (num den : Nat) : Int :=
  let guess : Int := Int.ofNat num.log2 - Int.ofNat den.log2
  let (n, d) := scaled num den guess
  if d ≤ n then guess - 52 else guess - 53

def ofRatio (negative : Bool) (num den : Nat) : Binary64 :=
  if num = 0 then finite negative 0 0
  else
    let exponent := max (exponentOf num den) leastExponent
    let (n, d) := scaled num den exponent
    let mantissa := Decimal.roundHalfEven n d
    let (mantissa, exponent) :=
      if mantissa = twoTo 53 then (twoTo 52, exponent + 1) else (mantissa, exponent)
    if mantissa = 0 then finite negative 0 0
    else if greatestExponent < exponent then infinite negative
    else finite negative mantissa exponent

def ofInt (n : Int) : Binary64 := ofRatio (decide (n < 0)) n.natAbs 1

def ofDecimal (negative : Bool) (digits : Nat) (power : Int) : Binary64 :=
  let magnitude := Int.ofNat (Nat.toDigits 10 digits).length + power
  if digits = 0 ∨ magnitude < -400 then finite negative 0 0
  else if 400 < magnitude then infinite negative
  else if 0 ≤ power then ofRatio negative (digits * tenTo power.toNat) 1
  else ofRatio negative digits (tenTo (-power).toNat)

def ratio (mantissa : Nat) (exponent : Int) : Nat × Nat :=
  if 0 ≤ exponent then (mantissa * twoTo exponent.toNat, 1) else (mantissa, twoTo (-exponent).toNat)

def isZero : Binary64 → Bool
  | finite _ mantissa _ => mantissa == 0
  | _ => false

def fraction? : Binary64 → Option (Int × Nat)
  | finite negative mantissa exponent =>
    let (num, den) := ratio mantissa exponent
    some (if negative then -Int.ofNat num else Int.ofNat num, den)
  | _ => none

def whole? (x : Binary64) : Option Int :=
  x.fraction?.bind fun (num, den) =>
    if num % Int.ofNat den = 0 then some (num / Int.ofNat den) else none

def isBelow : Binary64 → Binary64 → Bool
  | nan, _ | _, nan => false
  | infinite true, infinite true => false
  | infinite true, _ => true
  | infinite false, _ => false
  | finite .., infinite negative => !negative
  | x@(finite ..), y@(finite ..) =>
    match x.fraction?, y.fraction? with
    | some (a, b), some (c, d) => a * Int.ofNat d < c * Int.ofNat b
    | _, _ => false

instance : LT Binary64 := ⟨fun x y => x.isBelow y⟩

instance : DecidableLT Binary64 := fun x y => inferInstanceAs (Decidable (x.isBelow y = true))

def sub : Binary64 → Binary64 → Binary64
  | nan, _ | _, nan => nan
  | infinite a, infinite b => if a = b then nan else infinite a
  | infinite a, _ => infinite a
  | _, infinite b => infinite (!b)
  | x@(finite ..), y@(finite ..) =>
    match x.fraction?, y.fraction? with
    | some (a, b), some (c, d) =>
      let difference := a * Int.ofNat d - c * Int.ofNat b
      ofRatio (decide (difference < 0)) difference.natAbs (b * d)
    | _, _ => nan

instance : Sub Binary64 := ⟨sub⟩

def negated : Binary64 → Binary64
  | nan => nan
  | infinite negative => infinite (!negative)
  | finite negative mantissa exponent => finite (!negative) mantissa exponent

def isNegative : Binary64 → Bool
  | nan => false
  | infinite negative => negative
  | finite negative .. => negative

def add (x y : Binary64) : Binary64 :=
  if x.isZero && y.isZero then finite (x.isNegative && y.isNegative) 0 0 else x.sub y.negated

def mul : Binary64 → Binary64 → Binary64
  | nan, _ | _, nan => nan
  | x@(finite a m e), y@(finite b n f) =>
    let (num, den) := ratio m e
    let (num', den') := ratio n f
    if x.isZero || y.isZero then finite (a != b) 0 0 else ofRatio (a != b) (num * num') (den * den')
  | x, y =>
    if x.isZero || y.isZero then nan else infinite (x.isNegative != y.isNegative)

def divNat (x : Binary64) (divisor : Nat) : Binary64 :=
  match x with
  | finite negative mantissa exponent =>
    let (num, den) := ratio mantissa exponent
    ofRatio negative num (den * divisor)
  | other => other

def pointPosition (num den : Nat) : Int :=
  if den ≤ num then Int.ofNat (Nat.toDigits 10 (num / den)).length
  else
    let zeros := (Nat.toDigits 10 (den / num)).length - 1
    if den ≤ num * tenTo zeros then 1 - Int.ofNat zeros else -Int.ofNat zeros

/-- The reals that round to a number: four times the lower end, the value and the upper end, over four times
the denominator. Below a power of two the neighbour is half as far. -/
def neighbourhood (mantissa : Nat) (exponent : Int) : Nat × Nat × Nat × Nat :=
  let (num, den) := ratio mantissa exponent
  let (unit, _) := ratio 1 exponent
  let below := if mantissa = twoTo 52 ∧ leastExponent < exponent then unit else 2 * unit
  (4 * num - below, 4 * num, 4 * num + 2 * unit, 4 * den)

/-- A decimal of `count` digits that reads back as the number, if there is one. The result is the digits
and the power of ten that they count. -/
def decimalOf? (mantissa : Nat) (exponent : Int) (count : Nat) : Option (Nat × Int) :=
  let (low, value, high, den) := neighbourhood mantissa exponent
  let power := pointPosition value den - Int.ofNat count
  let (up, down) := if 0 ≤ power then (tenTo power.toNat, 1) else (1, tenTo (-power).toNat)
  let unit := den * up
  let floor := value * down / unit
  let readsBack := fun digits : Nat =>
    let x := digits * unit
    if mantissa % 2 = 0 then low * down ≤ x ∧ x ≤ high * down
    else low * down < x ∧ x < high * down
  let rest := value * down - floor * unit
  let nearer := if 2 * rest < unit ∨ (2 * rest = unit ∧ floor % 2 = 0) then floor else floor + 1
  let farther := if nearer = floor then floor + 1 else floor
  if readsBack nearer then some (nearer, power)
  else if readsBack farther then some (farther, power)
  else none

def shortest (mantissa : Nat) (exponent : Int) : Nat × Int :=
  ((List.range 17).findSome? fun count => decimalOf? mantissa exponent (count + 1)).getD
    (mantissa, 0)

def layout (digits : List Char) (point : Int) : List Char :=
  if -4 < point ∧ point ≤ 16 then
    if point ≤ 0 then '0' :: '.' :: List.replicate (-point).toNat '0' ++ digits
    else if digits.length ≤ point.toNat then
      digits ++ List.replicate (point.toNat - digits.length) '0' ++ ['.', '0']
    else digits.take point.toNat ++ '.' :: digits.drop point.toNat
  else
    let exponent := point - 1
    let written := Nat.toDigits 10 exponent.natAbs
    let padded := List.replicate (2 - written.length) '0' ++ written
    let fraction := digits.drop 1
    digits.take 1 ++ (if fraction.isEmpty then [] else '.' :: fraction) ++
      'e' :: (if exponent < 0 then '-' else '+') :: padded

def render : Binary64 → String
  | nan => "nan"
  | infinite negative => if negative then "-inf" else "inf"
  | finite negative mantissa exponent =>
    let magnitude :=
      if mantissa = 0 then ['0', '.', '0']
      else
        let (digits, power) := shortest mantissa exponent
        let (kept, zeros) := Decimal.significantDigits digits
        layout kept (Int.ofNat kept.length + zeros + power)
    String.ofList (if negative then '-' :: magnitude else magnitude)

def oneDecimal : Binary64 → String
  | finite negative mantissa exponent =>
    let (num, den) := ratio mantissa exponent
    let tenths := Decimal.roundHalfEven (10 * num) den
    (if negative then "-" else "") ++ toString (tenths / 10) ++ "." ++ toString (tenths % 10)
  | other => other.render

end Binary64

end UtilityCss
