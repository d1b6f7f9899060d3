import UtilityCss.Text.Ordered
import UtilityCss.Value.Basic

/-!
# Sets of scalars

Texts can be put in order, and so can numbers, to which truth values count, dates, moments, and bytes. A set
that mixes them has no order, and neither has one of moments of which only some have an offset.
-/

namespace UtilityCss.Scalar

def text? : Scalar → Option String
  | .text s => some s
  | _ => none

inductive Kind
  | number
  | text
  | day
  | moment (offset : Bool)
  | bytes
  deriving DecidableEq, Repr

def kind? : Scalar → Option Kind
  | null => none
  | bool _ | int _ | real _ => some .number
  | text _ => some .text
  | day _ => some .day
  | moment time => some (.moment time.offset.isSome)
  | bytes _ => some .bytes

def whole? : Scalar → Option Int
  | bool b => some (if b then 1 else 0)
  | int n => some n
  | _ => none

/-- Whether a whole number is below another number; the comparison is exact. -/
def wholeBelow (n : Int) : Binary64 → Bool
  | .infinite negative => !negative
  | .nan => false
  | x => x.fraction?.any fun (num, den) => n * Int.ofNat den < num

def belowWhole (x : Binary64) (n : Int) : Bool :=
  match x with
  | .infinite negative => negative
  | .nan => false
  | x => x.fraction?.any fun (num, den) => num < n * Int.ofNat den

def isBelow (a b : Scalar) : Bool :=
  match a, b with
  | text s, text t => decide (s < t)
  | day d, day e => decide (d.number < e.number)
  | moment m, moment n => decide (m.instant < n.instant)
  | bytes x, bytes y => decide (x.map UInt8.toNat < y.map UInt8.toNat)
  | real x, real y => x.isBelow y
  | real x, b => b.whole?.any (belowWhole x)
  | a, real y => a.whole?.any fun n => wholeBelow n y
  | a, b =>
    match a.whole?, b.whole? with
    | some m, some n => decide (m < n)
    | _, _ => false

def insertOrdered (entry : Scalar) : List Scalar → List Scalar
  | [] => [entry]
  | other :: rest =>
    if other.isBelow entry then other :: insertOrdered entry rest else entry :: other :: rest

def ordered? (scalars : List Scalar) : Option (List Scalar) :=
  let distinct := scalars.eraseDupsBy equals
  match distinct with
  | [] | [_] => some distinct
  | first :: rest =>
    if first.kind?.isSome && rest.all fun scalar => scalar.kind? = first.kind? then
      some (distinct.foldr insertOrdered [])
    else none

end UtilityCss.Scalar
