import UtilityCss.Text.Numeral
import UtilityCss.Value.Basic

/-!
# Values in messages

A text in a message stands as it is. Inside a list or a mapping it is quoted, so that the brackets and
commas of the message are not taken for its own, and dates are written as calls with their parts. A value
with a whole number in it that is too long to be written cannot be shown.
-/

namespace UtilityCss

def Scalar.shown : Scalar → String
  | .null => "None"
  | .bool b => if b then "True" else "False"
  | .int n => toString n
  | .real x => x.render
  | .text s => s
  | .day date => date.text
  | .moment time => time.text
  | .bytes data => Text.quotedBytes data

def called (name : String) (arguments : List String) : String :=
  "datetime." ++ name ++ "(" ++ ", ".intercalate arguments ++ ")"

def Moment.inner (moment : Moment) : String :=
  let date := [moment.date.year, moment.date.month, moment.date.day, moment.hour, moment.minute]
  let rest := if moment.microsecond = 0 then (if moment.second = 0 then [] else [moment.second])
    else [moment.second, moment.microsecond]
  let zone := match moment.offset with
    | none => []
    | some 0 => ["tzinfo=datetime.timezone.utc"]
    | some minutes => ["tzinfo=" ++ called "timezone" [spanText minutes]]
  called "datetime" ((date ++ rest).map toString ++ zone)

def Scalar.inner : Scalar → String
  | .text s => Text.quoted s
  | .day date => called "date" [toString date.year, toString date.month, toString date.day]
  | .moment time => time.inner
  | other => other.shown

mutual

def Value.inner : Value → String
  | .scalar s => s.inner
  | .list items => "[" ++ ", ".intercalate (Value.innerItems items) ++ "]"
  | .mapping entries => "\x7b" ++ ", ".intercalate (Value.innerEntries entries) ++ "\x7d"
  | .set [] => "set()"
  | .set items => "\x7b" ++ ", ".intercalate (items.map Scalar.inner) ++ "\x7d"
  | .pair first second => "(" ++ first.inner ++ ", " ++ second.inner ++ ")"

def Value.innerItems : List Value → List String
  | [] => []
  | value :: rest => value.inner :: Value.innerItems rest

def Value.innerEntries : List (Scalar × Value) → List String
  | [] => []
  | (key, value) :: rest => (key.inner ++ ": " ++ value.inner) :: Value.innerEntries rest

end

def Value.shown : Value → String
  | .scalar s => s.shown
  | other => other.inner

def Scalar.isShowable : Scalar → Bool
  | .int n => Numeral.isWritable n
  | _ => true

mutual

def Value.isShowable : Value → Bool
  | .scalar s => s.isShowable
  | .list items => Value.areShowable items
  | .mapping entries => Value.entriesAreShowable entries
  | .set items => items.all Scalar.isShowable
  | .pair first second => first.isShowable && second.isShowable

def Value.areShowable : List Value → Bool
  | [] => true
  | value :: rest => value.isShowable && Value.areShowable rest

def Value.entriesAreShowable : List (Scalar × Value) → Bool
  | [] => true
  | (key, value) :: rest => key.isShowable && value.isShowable && Value.entriesAreShowable rest

end

end UtilityCss
