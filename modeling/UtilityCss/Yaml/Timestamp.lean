import UtilityCss.Calendar
import UtilityCss.Value.Basic

/-!
# Dates in configuration texts

A date has a year of four digits, a month and a day. A time of day may follow, after a letter or blanks, with
a fraction of the second and the offset of its clock. `read?` takes such a text apart; whether there is such
a date is looked at afterwards.
-/

namespace UtilityCss.Yaml.Timestamp

def number (cs : List Char) : Nat := cs.foldl (fun n c => 10 * n + (c.toNat - '0'.toNat)) 0

def digits? (least most : Nat) (cs : List Char) : Option (Nat × List Char) :=
  let run := (cs.take most).takeWhile Char.isDigit
  if least ≤ run.length then some (number run, cs.drop run.length) else none

def behind? (c : Char) : List Char → Option (List Char)
  | d :: rest => if c = d then some rest else none
  | [] => none

def isGap (c : Char) : Bool := c == ' ' || c == '\t'

def timeMark? : List Char → Option (List Char)
  | 'T' :: rest | 't' :: rest => some rest
  | c :: rest => if isGap c then some (rest.dropWhile isGap) else none
  | [] => none

def fraction (cs : List Char) : Nat × List Char :=
  match cs with
  | '.' :: rest =>
    let digits := rest.takeWhile Char.isDigit
    let kept := digits.take 6
    (number kept * Decimal.tenTo (6 - kept.length), rest.drop digits.length)
  | cs => (0, cs)

def offset? (cs : List Char) : Option Int := do
  let (hours, rest) ← digits? 1 2 cs
  match rest with
  | [] => some (60 * hours)
  | ':' :: rest =>
    let (minutes, rest) ← digits? 2 2 rest
    if rest.isEmpty then some (60 * hours + minutes) else none
  | _ => none

def zone? (cs : List Char) : Option (Option Int) :=
  match cs, cs.dropWhile isGap with
  | [], _ => some none
  | _, ['Z'] => some (some 0)
  | _, '+' :: rest => (offset? rest).map some
  | _, '-' :: rest => (offset? rest).map fun minutes => some (-minutes)
  | _, _ => none

def date? (cs : List Char) : Option (Date × List Char) := do
  let (year, rest) ← digits? 4 4 cs
  let (month, rest) ← digits? 1 2 (← behind? '-' rest)
  let (day, rest) ← digits? 1 2 (← behind? '-' rest)
  some ({ year, month, day }, rest)

def time? (date : Date) (cs : List Char) : Option Moment := do
  let (hour, rest) ← digits? 1 2 (← timeMark? cs)
  let (minute, rest) ← digits? 2 2 (← behind? ':' rest)
  let (second, rest) ← digits? 2 2 (← behind? ':' rest)
  let (microsecond, rest) := fraction rest
  let offset ← zone? rest
  some { date, hour, minute, second, microsecond, offset }

def read? (cs : List Char) : Option (Date ⊕ Moment) := do
  let (date, rest) ← date? cs
  if rest.isEmpty then some (.inl date) else (time? date rest).map .inr

/-- Whether a text looks like a date without being told to be one: month and day of a date without a time
have two digits. -/
def isPlain (cs : List Char) : Bool :=
  match read? cs with
  | some (.inl _) => cs.length = 10
  | some (.inr _) => true
  | none => false

def scalar : Date ⊕ Moment → Except CalendarFault Scalar
  | .inl date => date.check.map .day
  | .inr moment => moment.check.map .moment

end UtilityCss.Yaml.Timestamp
