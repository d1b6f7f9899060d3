/-!
# Dates and times of day

Dates count from the first day of the year one, by the rule that a year divisible by four has a day more,
unless it ends a century that is not divisible by four hundred. A moment is a date with a time of day; it may
say how far its clock is ahead of the clocks at longitude zero. Reading one can fail for each of its parts.
-/

namespace UtilityCss

def paddedDigits (width n : Nat) : String :=
  let written := Nat.toDigits 10 n
  String.ofList (List.replicate (width - written.length) '0' ++ written)

structure Date where
  year : Nat
  month : Nat
  day : Nat
  deriving DecidableEq, Repr

namespace Date

/-- The date of a day counted from the beginning of 1970. Years begin in March here, so that the day that
some of them add is their last, and 400 of them always have 146097 days. -/
def ofDay (day : Nat) : Date :=
  let day := day + 719468
  let inEra := day % 146097
  let yearInEra := (inEra - inEra / 1460 + inEra / 36524 - inEra / 146096) / 365
  let inYear := inEra - (365 * yearInEra + yearInEra / 4 - yearInEra / 100)
  let month := (5 * inYear + 2) / 153
  let year := yearInEra + 400 * (day / 146097)
  { year := if month < 10 then year else year + 1
    month := if month < 10 then month + 3 else month - 9
    day := inYear - (153 * month + 2) / 5 + 1 }

example : ofDay 0 = ⟨1970, 1, 1⟩ ∧ ofDay 11016 = ⟨2000, 2, 29⟩ := by decide

def isLeap (year : Nat) : Bool := year % 4 = 0 && (year % 100 ≠ 0 || year % 400 = 0)

def monthLength (year month : Nat) : Nat :=
  if month = 2 then (if isLeap year then 29 else 28)
  else if [4, 6, 9, 11].contains month then 30
  else 31

def number (date : Date) : Nat :=
  let years := date.year - 1
  let inYear := (List.range (date.month - 1)).foldl
    (fun days month => days + monthLength date.year (month + 1)) date.day
  365 * years + years / 4 - years / 100 + years / 400 + inYear

example : (ofDay 19000).number = (ofDay 0).number + 19000 := by decide

def text (date : Date) : String :=
  paddedDigits 4 date.year ++ "-" ++ paddedDigits 2 date.month ++ "-" ++ paddedDigits 2 date.day

end Date

structure Moment where
  date : Date
  hour : Nat
  minute : Nat
  second : Nat
  microsecond : Nat := 0
  /-- The minutes by which the clock is ahead, where that is known. -/
  offset : Option Int := none
  deriving DecidableEq, Repr

namespace Moment

/-- The microseconds up to a moment; moments with an offset are counted at longitude zero. -/
def instant (moment : Moment) : Int :=
  let minutes := Int.ofNat (1440 * moment.date.number + 60 * moment.hour + moment.minute)
  (60 * (minutes - moment.offset.getD 0) + moment.second) * 1000000 + moment.microsecond

def offsetText (offset : Int) : String :=
  (if offset < 0 then "-" else "+") ++ paddedDigits 2 (offset.natAbs / 60) ++ ":" ++
    paddedDigits 2 (offset.natAbs % 60)

def text (moment : Moment) : String :=
  moment.date.text ++ " " ++ paddedDigits 2 moment.hour ++ ":" ++ paddedDigits 2 moment.minute ++ ":" ++
    paddedDigits 2 moment.second ++
    (if moment.microsecond = 0 then "" else "." ++ paddedDigits 6 moment.microsecond) ++
    (moment.offset.map offsetText).getD ""

end Moment

/-! ### Checking the parts -/

inductive CalendarFault
  | year (n : Nat)
  | month
  | day
  | hour
  | minute
  | second
  /-- A clock can be ahead or behind by less than a day. -/
  | offset (minutes : Int)
  deriving DecidableEq, Repr

def spanText (minutes : Int) : String :=
  let days := minutes.fdiv 1440
  let seconds := 60 * minutes.fmod 1440
  let parts := (if days = 0 then [] else [s!"days={days}"]) ++
    (if seconds = 0 then [] else [s!"seconds={seconds}"])
  "datetime.timedelta(" ++ (if parts.isEmpty then "0" else ", ".intercalate parts) ++ ")"

def CalendarFault.message : CalendarFault → String
  | year n => s!"year {n} is out of range"
  | month => "month must be in 1..12"
  | day => "day is out of range for month"
  | hour => "hour must be in 0..23"
  | minute => "minute must be in 0..59"
  | second => "second must be in 0..59"
  | offset minutes =>
    "offset must be a timedelta strictly between -timedelta(hours=24) and timedelta(hours=24), not " ++
      spanText minutes ++ "."

def Date.check (date : Date) : Except CalendarFault Date :=
  if date.year = 0 then .error (.year date.year)
  else if date.month = 0 ∨ 12 < date.month then .error .month
  else if date.day = 0 ∨ monthLength date.year date.month < date.day then .error .day
  else .ok date

def Moment.check (moment : Moment) : Except CalendarFault Moment := do
  match moment.offset with
  | some minutes => if 1440 ≤ minutes.natAbs then throw (.offset minutes)
  | none => pure ()
  let _ ← moment.date.check
  if 24 ≤ moment.hour then throw .hour
  if 60 ≤ moment.minute then throw .minute
  if 60 ≤ moment.second then throw .second
  return moment

end UtilityCss
