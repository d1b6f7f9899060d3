import UtilityCss.Binary64
import UtilityCss.Calendar

/-!
# Values

What a configuration file or a log record holds: scalars, lists, mappings from scalars to values, sets of
scalars, and pairs of values. A mapping keeps its entries in the order in which they were first set.
-/

namespace UtilityCss

inductive Scalar
  | null
  | bool (b : Bool)
  | int (n : Int)
  | real (x : Binary64)
  | text (s : String)
  | day (date : Date)
  | moment (moment : Moment)
  | bytes (bytes : List UInt8)
  deriving DecidableEq, Repr, Inhabited

namespace Scalar

/-- The integer that a number or a truth value equals, and any other scalar itself. -/
def reduced : Scalar → Scalar
  | bool b => int (if b then 1 else 0)
  | real x => (x.whole?.map int).getD (real x)
  | scalar => scalar

/-- Equality that does not tell a whole number from the same number with a fraction of zero, nor one and zero
from yes and no, nor two clocks that show the same moment. -/
def equals (a b : Scalar) : Bool :=
  match a, b with
  | moment a, moment b => a.offset.isSome == b.offset.isSome && a.instant == b.instant
  | a, b => a.reduced == b.reduced

end Scalar

inductive Value
  | scalar (s : Scalar)
  | list (items : List Value)
  | mapping (entries : List (Scalar × Value))
  | set (items : List Scalar)
  | pair (first second : Value)
  deriving BEq, Repr, Inhabited

abbrev Entries := List (Scalar × Value)

namespace Value

@[match_pattern] abbrev null : Value := .scalar .null
@[match_pattern] abbrev bool (b : Bool) : Value := .scalar (.bool b)
@[match_pattern] abbrev int (n : Int) : Value := .scalar (.int n)
@[match_pattern] abbrev real (x : Binary64) : Value := .scalar (.real x)
@[match_pattern] abbrev text (s : String) : Value := .scalar (.text s)

def ofNat (n : Nat) : Value := .int (Int.ofNat n)

def texts (items : List String) : Value := .list (items.map text)

def text? : Value → Option String
  | text s => some s
  | _ => none

def bool? : Value → Option Bool
  | bool b => some b
  | _ => none

def entries? : Value → Option Entries
  | mapping entries => some entries
  | _ => none

def texts? : Value → Option (List String)
  | list items => items.mapM text?
  | _ => none

/-- Empty, zero, false and null count as no. -/
def holds : Value → Bool
  | null => false
  | bool b => b
  | int n => n != 0
  | real x => !x.isZero
  | text s => !s.isEmpty
  | list items => !items.isEmpty
  | mapping entries => !entries.isEmpty
  | .scalar (.bytes bytes) => !bytes.isEmpty
  | set items => !items.isEmpty
  | .scalar (.day _) | .scalar (.moment _) | pair .. => true

end Value

namespace Entries

def get? (entries : Entries) (key : String) : Option Value := entries.lookup (.text key)

def has (entries : Entries) (key : String) : Bool := (entries.get? key).isSome

def spelling (entries : Entries) (key : Scalar) : Scalar :=
  ((entries.find? fun entry => entry.1.equals key).map Prod.fst).getD key

def set (key : Scalar) (value : Value) : Entries → Entries
  | [] => [(key, value)]
  | (k, v) :: rest => if k = key then (key, value) :: rest else (k, v) :: set key value rest

def valueOf? (entries : Entries) (key : Scalar) : Option Value :=
  (entries.find? fun entry => entry.1.equals key).map Prod.snd

/-- Of two equal keys the first keeps its place and its spelling, the second gives the value. -/
def define (key : Scalar) (value : Value) (entries : Entries) : Entries :=
  set (spelling entries key) value entries

def remove (key : String) (entries : Entries) : Entries :=
  entries.filter fun entry => entry.1 ≠ .text key

theorem lookup_set (key k : Scalar) (value : Value) : ∀ entries : Entries,
    (set key value entries).lookup k = if k = key then some value else entries.lookup k
  | [] => by
    by_cases h : k = key
    · simp [set, h]
    · simp [set, List.lookup_cons, h, beq_eq_false_iff_ne.mpr h]
  | (k', v) :: rest => by
    have ih := lookup_set key k value rest
    by_cases h' : k' = key
    · subst h'
      by_cases h : k = k'
      · simp [set, h]
      · simp [set, List.lookup_cons, h, beq_eq_false_iff_ne.mpr h]
    · by_cases hk : k = k'
      · subst hk
        simp [set, h']
      · simp [set, List.lookup_cons, h', ih, beq_eq_false_iff_ne.mpr hk]

end Entries

end UtilityCss
