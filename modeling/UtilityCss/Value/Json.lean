import UtilityCss.Text.Blank
import UtilityCss.Text.Quoted
import UtilityCss.Value.Shown

/-!
# Values as JSON text

`Value.json?` writes a value on one line, unless a whole number in it is too long to be written or a key is of a
kind that keys cannot be. Texts are quoted; quotes, backslashes and control characters are escaped, all else is
written as it is. `Value.ofJson?` reads JSON text, in which numbers without point and exponent are integers.
-/

namespace UtilityCss

namespace Json

def hexDigit (n : Nat) : Char := (Nat.digitChar n)

def escape (c : Char) : List Char :=
  if c = '"' then ['\\', '"']
  else if c = '\\' then ['\\', '\\']
  else if c = '\n' then ['\\', 'n']
  else if c = '\r' then ['\\', 'r']
  else if c = '\t' then ['\\', 't']
  else if c.toNat = 8 then ['\\', 'b']
  else if c.toNat = 12 then ['\\', 'f']
  else if c.toNat < 32 then
    ['\\', 'u', '0', '0', hexDigit (c.toNat / 16), hexDigit (c.toNat % 16)]
  else [c]

def quoted (s : String) : String :=
  String.ofList ('"' :: s.toList.flatMap escape ++ ['"'])

def real : Binary64 → String
  | .nan => "NaN"
  | .infinite negative => if negative then "-Infinity" else "Infinity"
  | x => x.render

def scalar : Scalar → String
  | .null => "null"
  | .bool b => if b then "true" else "false"
  | .int n => toString n
  | .real x => real x
  | .text s => quoted s
  | .day date => quoted date.text
  | .moment moment => quoted moment.text
  | .bytes bytes => quoted (Text.quotedBytes bytes)

/-- The keys of an object are texts; a number, a truth value or null stands for the text that writes it. -/
def key? : Scalar → Option String
  | .text s => some s
  | .day _ | .moment _ | .bytes _ => none
  | other => if other.isShowable then some (scalar other) else none

end Json

mutual

/-- A set is written as the text that shows it. -/
def Value.json : Value → String
  | .scalar s => Json.scalar s
  | .list items => "[" ++ ", ".intercalate (Value.jsonItems items) ++ "]"
  | .mapping entries => "\x7b" ++ ", ".intercalate (Value.jsonEntries entries) ++ "\x7d"
  | .set items => Json.quoted (Value.set items).inner
  | .pair first second => "[" ++ first.json ++ ", " ++ second.json ++ "]"

def Value.jsonItems : List Value → List String
  | [] => []
  | value :: rest => value.json :: Value.jsonItems rest

def Value.jsonEntries : List (Scalar × Value) → List String
  | [] => []
  | (key, value) :: rest =>
    (Json.quoted ((Json.key? key).getD "") ++ ": " ++ value.json) :: Value.jsonEntries rest

end

mutual

def Value.hasJson : Value → Bool
  | .scalar s => s.isShowable
  | .list items => Value.haveJson items
  | .mapping entries => Value.entriesHaveJson entries
  | .set items => (Value.set items).isShowable
  | .pair first second => first.hasJson && second.hasJson

def Value.haveJson : List Value → Bool
  | [] => true
  | value :: rest => value.hasJson && Value.haveJson rest

def Value.entriesHaveJson : List (Scalar × Value) → Bool
  | [] => true
  | (key, value) :: rest => (Json.key? key).isSome && value.hasJson && Value.entriesHaveJson rest

end

def Value.json? (value : Value) : Option String := if value.hasJson then some value.json else none

namespace Json

def isSpace (c : Char) : Bool := c == ' ' || c == '\n' || c == '\r' || c == '\t'

def skipSpace (cs : List Char) : List Char := cs.dropWhile isSpace

def hexValue? (c : Char) : Option Nat :=
  if c.isDigit then some (c.toNat - '0'.toNat)
  else if 'a' ≤ c ∧ c ≤ 'f' then some (c.toNat - 'a'.toNat + 10)
  else if 'A' ≤ c ∧ c ≤ 'F' then some (c.toNat - 'A'.toNat + 10)
  else none

def unit? : List Char → Option (Nat × List Char)
  | a :: b :: c :: d :: rest => do
    some (((← hexValue? a) * 16 + (← hexValue? b)) * 256 + (← hexValue? c) * 16 + (← hexValue? d), rest)
  | _ => none

/-- Two surrogates are one character. -/
def unicode? (cs : List Char) : Option (Char × List Char) := do
  let (high, rest) ← unit? cs
  if 0xD800 ≤ high ∧ high < 0xDC00 then
    match rest with
    | '\\' :: 'u' :: more => do
      let (low, rest) ← unit? more
      if 0xDC00 ≤ low ∧ low < 0xE000 then
        some (Char.ofNat (0x10000 + (high - 0xD800) * 0x400 + (low - 0xDC00)), rest)
      else none
    | _ => none
  else some (Char.ofNat high, rest)

def escaped? : List Char → Option (Char × List Char)
  | '"' :: rest => some ('"', rest)
  | '\\' :: rest => some ('\\', rest)
  | '/' :: rest => some ('/', rest)
  | 'b' :: rest => some (Char.ofNat 8, rest)
  | 'f' :: rest => some (Char.ofNat 12, rest)
  | 'n' :: rest => some ('\n', rest)
  | 'r' :: rest => some ('\r', rest)
  | 't' :: rest => some ('\t', rest)
  | 'u' :: rest => unicode? rest
  | _ => none

def textRest? (fuel : Nat) (done : List Char) (cs : List Char) : Option (String × List Char) :=
  match fuel, cs with
  | 0, _ | _, [] => none
  | _ + 1, '"' :: rest => some (String.ofList done.reverse, rest)
  | fuel + 1, '\\' :: rest => do
    let (c, rest) ← escaped? rest
    textRest? fuel (c :: done) rest
  | fuel + 1, c :: rest => if c.toNat < 32 then none else textRest? fuel (c :: done) rest

def isNumberChar (c : Char) : Bool :=
  c.isDigit || c == '-' || c == '+' || c == '.' || c == 'e' || c == 'E'

def isDigits (cs : List Char) : Bool := !cs.isEmpty && cs.all Char.isDigit

def isExponent : List Char → Bool
  | [] => true
  | mark :: '+' :: digits | mark :: '-' :: digits | mark :: digits =>
    (mark == 'e' || mark == 'E') && isDigits digits

def isFraction : List Char → Bool
  | '.' :: rest => isDigits (rest.takeWhile Char.isDigit) && isExponent (rest.dropWhile Char.isDigit)
  | rest => isExponent rest

def isNumeral (cs : List Char) : Bool :=
  let cs := match cs with
    | '-' :: rest => rest
    | _ => cs
  let whole := cs.takeWhile Char.isDigit
  isDigits whole && (whole == ['0'] || whole.head? != some '0') && isFraction (cs.dropWhile Char.isDigit)

def number? (cs : List Char) : Option Scalar :=
  if isNumeral cs then
    (Decimal.ofText? (String.ofList cs)).map fun decimal =>
      if cs.any fun c => c == '.' || c == 'e' || c == 'E' then
        .real (Binary64.ofDecimal decimal.negative decimal.coefficient decimal.exponent)
      else
        .int (if decimal.negative then -Int.ofNat decimal.coefficient else decimal.coefficient)
  else none

def word? (word : String) (scalar : Scalar) (cs : List Char) : Option (Value × List Char) :=
  (word.toList.isPrefixOf? cs).map fun rest => (.scalar scalar, rest)

mutual

def value? (fuel : Nat) (cs : List Char) : Option (Value × List Char) :=
  match fuel, skipSpace cs with
  | 0, _ | _, [] => none
  | _ + 1, '"' :: rest => (textRest? (rest.length + 1) [] rest).map fun p => (.text p.1, p.2)
  | fuel + 1, '[' :: rest =>
    match skipSpace rest with
    | ']' :: rest => some (.list [], rest)
    | rest => (items? fuel rest).map fun p => (.list p.1, p.2)
  | fuel + 1, '\x7b' :: rest =>
    match skipSpace rest with
    | '\x7d' :: rest => some (.mapping [], rest)
    | rest => (entries? fuel [] rest).map fun p => (.mapping p.1, p.2)
  | _ + 1, cs =>
    word? "null" .null cs <|> word? "true" (.bool true) cs <|> word? "false" (.bool false) cs <|>
      (number? (cs.takeWhile isNumberChar)).map fun n => (.scalar n, cs.dropWhile isNumberChar)

def items? (fuel : Nat) (cs : List Char) : Option (List Value × List Char) :=
  match fuel with
  | 0 => none
  | fuel + 1 => do
    let (value, rest) ← value? fuel cs
    match skipSpace rest with
    | ',' :: rest => (items? fuel rest).map fun p => (value :: p.1, p.2)
    | ']' :: rest => some ([value], rest)
    | _ => none

def entries? (fuel : Nat) (done : Entries) (cs : List Char) : Option (Entries × List Char) :=
  match fuel, skipSpace cs with
  | fuel + 1, '"' :: rest => do
    let (key, rest) ← textRest? (rest.length + 1) [] rest
    match skipSpace rest with
    | ':' :: rest => do
      let (value, rest) ← value? fuel rest
      let done := Entries.set (.text key) value done
      match skipSpace rest with
      | ',' :: rest => entries? fuel done rest
      | '\x7d' :: rest => some (done, rest)
      | _ => none
    | _ => none
  | _, _ => none

end

/-! A blank in front of what is read means nothing. -/

theorem value?_space (fuel : Nat) (cs : List Char) : value? fuel (' ' :: cs) = value? fuel cs := by
  have hskip : skipSpace (' ' :: cs) = skipSpace cs := rfl
  rw [value?.eq_def, hskip, ← value?.eq_def]

theorem items?_space (fuel : Nat) (cs : List Char) : items? fuel (' ' :: cs) = items? fuel cs := by
  cases fuel with
  | zero => rfl
  | succ fuel => rw [items?, items?, value?_space]

theorem entries?_space (fuel : Nat) (done : Entries) (cs : List Char) :
    entries? fuel done (' ' :: cs) = entries? fuel done cs := by
  have hskip : skipSpace (' ' :: cs) = skipSpace cs := rfl
  rw [entries?.eq_def, hskip, ← entries?.eq_def]

end Json

def Value.ofJson? (s : String) : Option Value := do
  let (value, rest) ← Json.value? (2 * s.length + 2) s.toList
  if (Json.skipSpace rest).isEmpty then some value else none

end UtilityCss
