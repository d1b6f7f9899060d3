import UtilityCss.Calendar

/-!
# The time of records

A time is counted in milliseconds from the beginning of the year 1970. Records show it as date and time of
day.
-/

namespace UtilityCss.Log

def momentText (milliseconds : Nat) : String :=
  let seconds := milliseconds / 1000
  let time : Moment := {
    date := .ofDay (seconds / 86400)
    hour := seconds / 3600 % 24
    minute := seconds / 60 % 60
    second := seconds % 60 }
  time.text ++ "," ++ paddedDigits 3 (milliseconds % 1000)

end UtilityCss.Log
