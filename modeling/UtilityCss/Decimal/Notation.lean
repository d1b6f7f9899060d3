import UtilityCss.Decimal
import UtilityCss.Text.Digit

/-!
# Decimal numbers in any notation

Besides numbers with an optional power of ten a text can write an infinity, or a thing that is not a number
and may carry digits of its own. Digits of every script count, and underscores count for nothing. `plain`
writes such a text anew in plain digits, with the precision and within the powers of ten that numbers have.
-/

namespace UtilityCss.Decimal

inductive Notation
  | number (value : Decimal)
  | infinite (negative : Bool)
  /-- No number; a signalling one cannot be used for anything. -/
  | undefined (negative signalling : Bool) (payload : List Char)
  deriving DecidableEq, Repr

inductive NotationFault
  | invalid
  | overflow
  deriving DecidableEq, Repr

/-! ### Reading -/

def greatestWritten : Int := 999999999999999999

def leastWritten : Int := -1999999999999999997

def magnitude (d : Decimal) : Int :=
  d.exponent + Int.ofNat (Nat.toDigits 10 d.coefficient).length - 1

def isWritable (d : Decimal) : Bool := leastWritten ≤ d.exponent && d.magnitude ≤ greatestWritten

namespace Notation

def undefined? (negative signalling : Bool) (payload : List Char) : Option Notation :=
  if payload.all Char.isDigit then some (.undefined negative signalling (payload.dropWhile (· == '0')))
  else none

def word? (negative : Bool) (cs : List Char) : Option Notation :=
  match cs.map Char.toLower with
  | ['i', 'n', 'f'] | ['i', 'n', 'f', 'i', 'n', 'i', 't', 'y'] => some (.infinite negative)
  | 'n' :: 'a' :: 'n' :: payload => undefined? negative false payload
  | 's' :: 'n' :: 'a' :: 'n' :: payload => undefined? negative true payload
  | _ => none

def cleaned (s : String) : List Char :=
  ((Text.strip Text.isBlank s.toList).filter (· != '_')).map Text.commonDigit

def ofText? (s : String) : Option Notation :=
  let cs := cleaned s
  let (negative, rest) := signed cs
  match word? negative rest with
  | some word => some word
  | none => (ofChars? cs).bind fun d => if isWritable d then some (.number d) else none

end Notation

/-! ### Writing -/

def greatestMagnitude : Int := 999999

def leastExponent : Int := -1000026

def excess (d : Decimal) : Nat :=
  max ((Nat.toDigits 10 d.coefficient).length - precision) (leastExponent - d.exponent).toNat

/-- A number with the digits that can be kept, a half going to the even neighbour. -/
def kept (d : Decimal) : Decimal :=
  if (Nat.toDigits 10 d.coefficient).length < d.excess then { coefficient := 0 }
  else { d with
    coefficient := roundHalfEven d.coefficient (tenTo d.excess)
    exponent := d.exponent + d.excess }

def renderWithin (d : Decimal) : Except NotationFault String :=
  if d.coefficient = 0 then .ok "0"
  else if greatestMagnitude < d.magnitude ∨ greatestMagnitude < d.kept.magnitude then .error .overflow
  else .ok d.kept.render

namespace Notation

def sign (negative : Bool) : String := if negative then "-" else ""

def render : Notation → Except NotationFault String
  | number value => value.renderWithin
  | infinite negative => .ok (sign negative ++ "Infinity")
  | undefined _ true _ => .error .invalid
  | undefined negative false payload =>
    .ok (sign negative ++ "NaN" ++
      String.ofList ((payload.drop (payload.length - precision)).dropWhile (· == '0')))

end Notation

def plain (s : String) : Except NotationFault String :=
  match Notation.ofText? s with
  | some meant => meant.render
  | none => .error .invalid

example : (plain " 1_2.5e1 ").toOption = some "125" := by decide +kernel

end UtilityCss.Decimal
