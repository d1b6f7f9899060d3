import UtilityCss.Calendar
import UtilityCss.Text.Numeral
import UtilityCss.Value.Basic

/-!
# Reading a configuration text

A reader gives the value that a text writes, or says what is wrong with it. Most faults make a text malformed.
Some concern one scalar only, whose text does not fit what its tag says, and these name what is wrong with it.
-/

namespace UtilityCss.Yaml

inductive Fault
  | malformed
  /-- The text ends inside of something. -/
  | ended
  /-- The collections are nested too deeply. -/
  | tooDeep
  /-- A code that no character has. -/
  | character (code : Nat)
  | whole (fault : Numeral.Fault)
  | real (text : String)
  /-- A number too great for a calculation. -/
  | tooGreat
  /-- A number without any character. -/
  | emptyNumber
  /-- A word that is neither yes nor no. -/
  | truth (text : String)
  | calendar (fault : CalendarFault)
  /-- A text that is no date. -/
  | timestamp (text : String)
  /-- Something of another kind is needed. -/
  | mistyped
  deriving DecidableEq, Repr

def Fault.greatestCode : Nat := 0x7FFFFFFF

def Fault.message : Fault → String
  | malformed => "the text is malformed"
  | ended => "the text ends too early"
  | tooDeep => "the collections are nested too deeply"
  | character code =>
    if code ≤ greatestCode then "chr() arg not in range(0x110000)" else "the code is too great"
  | whole fault => fault.message
  | real text => "could not convert string to float: " ++ Text.quoted text
  | tooGreat => "the number is too great"
  | emptyNumber => "a number has no character"
  | truth text => "neither yes nor no: " ++ Text.quoted text
  | calendar fault => fault.message
  | timestamp text => "no date: " ++ Text.quoted text
  | mistyped => "something of another kind is needed"

def Fault.isOfValue : Fault → Bool
  | character code => code ≤ greatestCode
  | whole _ | real _ | calendar _ => true
  | _ => false

/-- The first argument tells whether the text is whole, or breaks off where its bytes have a fault. -/
abbrev Reader := Bool → String → Except Fault Value

end UtilityCss.Yaml
