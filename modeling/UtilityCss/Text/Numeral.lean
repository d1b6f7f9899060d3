import UtilityCss.Text.Blank
import UtilityCss.Text.Digit
import UtilityCss.Text.Quoted

/-!
# Whole numbers in a text

A numeral is an optional sign and digits, with white space around them. Digits of every script count, and
letters are the digits from ten on. An underscore may stand between two digits, and a numeral to a base with
a mark of its own may begin with that mark. Numerals to the base ten have a greatest length.
-/

namespace UtilityCss.Numeral

inductive Fault
  | invalid (base : Nat) (text : String)
  /-- The digits of a numeral that is read are counted, those of one that is to be written are not. -/
  | tooLong (digits : Option Nat)
  deriving DecidableEq, Repr

def greatestLength : Nat := 4300

def shownLength : Nat := 200

def Fault.message : Fault → String
  | invalid base text =>
    s!"invalid literal for int() with base {base}: " ++
      String.ofList ((Text.quoted text).toList.take shownLength)
  | tooLong digits =>
    let counted := (digits.map fun digits => s!": value has {digits} digits").getD ""
    s!"Exceeds the limit ({greatestLength} digits) for integer string conversion{counted}; " ++
      "use sys.set_int_max_str_digits() to increase the limit"

/-- White space beside a numeral; the marks between records are not part of it. -/
def isMargin (c : Char) : Bool := Text.isBlank c && !(28 ≤ c.toNat && c.toNat ≤ 31)

def digit? (c : Char) : Option Nat :=
  match Text.digit? c with
  | some n => some n
  | none => if c.isAlpha then some (c.toLower.toNat - 'a'.toNat + 10) else none

def isDigit (base : Nat) (c : Char) : Bool := (digit? c).any (· < base)

def markOf? : Nat → Option Char
  | 2 => some 'b'
  | 8 => some 'o'
  | 16 => some 'x'
  | _ => none

/-- What follows the mark of the base, behind which one underscore may stand. -/
def withoutMark (base : Nat) (cs : List Char) : List Char :=
  match cs with
  | '0' :: mark :: rest =>
    if markOf? base ≠ some mark.toLower then cs
    else match rest with
      | '_' :: rest => rest
      | rest => rest
  | cs => cs

def isWellSpaced (run : List Char) : Bool :=
  (Text.pieces (· == '_') run).all fun piece => !piece.isEmpty

def magnitude (base : Nat) (digits : List Char) : Nat :=
  digits.foldl (fun n c => base * n + (digit? c).getD 0) 0

def unsigned (base : Nat) (cs : List Char) : Except (Option Nat) Nat :=
  let cs := withoutMark base cs
  let isPart := fun c => c == '_' || isDigit base c
  let run := cs.takeWhile isPart
  let digits := run.filter (· != '_')
  if !isWellSpaced run then .error none
  else if base = 10 ∧ greatestLength < digits.length then .error (some digits.length)
  else if (cs.dropWhile isPart).all isMargin then .ok (magnitude base digits)
  else .error none

def signed (base : Nat) (cs : List Char) : Except (Option Nat) Int :=
  match cs with
  | '-' :: rest => (unsigned base rest).map fun n => -Int.ofNat n
  | '+' :: rest => (unsigned base rest).map Int.ofNat
  | cs => (unsigned base cs).map Int.ofNat

def read (base : Nat) (text : String) : Except Fault Int :=
  (signed base (text.toList.dropWhile isMargin)).mapError fun
    | some digits => .tooLong (some digits)
    | none => .invalid base text

def isWritable (n : Int) : Bool := n.natAbs < Nat.pow 10 greatestLength

example : (read 10 " -1_0\n").toOption = some (-10) := by decide +kernel

example : (read 16 "0x_fF").toOption = some 255 := by decide +kernel

end UtilityCss.Numeral
