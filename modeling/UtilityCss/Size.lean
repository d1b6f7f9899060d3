import UtilityCss.Value.Shown

/-!
# Sizes of files

A size is written in the greatest unit that it reaches, except that large ones stay in megabytes. Whole
bytes have no fraction; the other units have one digit after the point. `Size.ofValue` writes any number as
a size.
-/

namespace UtilityCss.Size

def kilobyte : Nat := 1024

def megabyte : Nat := kilobyte * 1024

def inUnits (size : Int) (unit : Nat) : Binary64 :=
  Binary64.ofRatio (decide (size < 0)) size.natAbs unit

def text (size : Int) : String :=
  if size < Int.ofNat kilobyte then s!"{size} B"
  else if size < Int.ofNat megabyte then (inUnits size kilobyte).oneDecimal ++ " KB"
  else (inUnits size megabyte).oneDecimal ++ " MB"

def realText (size : Binary64) : String :=
  if size < Binary64.ofInt kilobyte then size.render ++ " B"
  else if size < Binary64.ofInt megabyte then (size.divNat kilobyte).oneDecimal ++ " KB"
  else (size.divNat megabyte).oneDecimal ++ " MB"

inductive Fault
  | mistyped
  /-- No number of megabytes is that great. -/
  | tooGreat
  deriving DecidableEq, Repr

/-- A value as a size; yes and no are numbers below a kilobyte. -/
def ofValue : Value → Except Fault String
  | .bool b => .ok ((Value.bool b).shown ++ " B")
  | .int n => if inUnits n megabyte = .infinite false then .error .tooGreat else .ok (text n)
  | .real x => .ok (realText x)
  | _ => .error .mistyped

end UtilityCss.Size
