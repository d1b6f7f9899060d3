import UtilityCss.Yaml.Block
import UtilityCss.Yaml.Quotation

/-!
# Tags and directives in the text

A tag is written in full between angle brackets, or behind a handle for its beginning. What a handle stands
for, and which version a text is written for, is said by directives in front of it. Addresses write bytes
of other characters as percent signs with two hexadecimal digits.
-/

namespace UtilityCss.Yaml

def isNameChar (c : Char) : Bool := c.isAlphanum || c == '-' || c == '_'

def endsWord (rest : List Char) : Bool := rest.head?.all fun c => c == ' ' || isBreak c

def unexpected (rest : List Char) : Fault := if rest.isEmpty then .ended else .malformed

def isAddressChar (c : Char) : Bool :=
  c.isAlphanum || "-;/?:@&=+$,_.!~*'()[]".toList.contains c

def escapedBytes : List Char → Except Fault (List UInt8)
  | '%' :: a :: b :: cs =>
    match hexValue? a, hexValue? b with
    | some m, some n => (escapedBytes cs).map (UInt8.ofNat (16 * m + n) :: ·)
    | _, _ => .error .malformed
  | '%' :: cs => .error (if cs.isEmpty then .ended else .malformed)
  | _ => .ok []

def escapedText (cursor : Cursor) : Except Fault (List Char × Cursor) := do
  let bytes ← escapedBytes cursor.rest
  match String.fromUTF8? (ByteArray.mk bytes.toArray) with
  | some text => return (text.toList, cursor.pass (3 * bytes.length))
  | none => throw .malformed

def addressFrom (fuel : Nat) (done : List Char) (cursor : Cursor) :
    Except Fault (List Char × Cursor) :=
  match fuel, cursor.rest with
  | fuel + 1, c :: _ =>
    if c = '%' then
      match escapedText cursor with
      | .ok (text, after) => addressFrom fuel (text.reverse ++ done) after
      | .error fault => .error fault
    else if isAddressChar c then addressFrom fuel (c :: done) cursor.next
    else .ok (done.reverse, cursor)
  | _, _ => .ok (done.reverse, cursor)

def address (cursor : Cursor) : Except Fault (String × Cursor) := do
  let (text, after) ← addressFrom cursor.rest.length [] cursor
  if text.isEmpty then throw (unexpected cursor.rest)
  return (String.ofList text, after)

def handle (cursor : Cursor) : Except Fault (String × Cursor) :=
  match cursor.rest with
  | '!' :: ' ' :: _ => .ok ("!", cursor.next)
  | '!' :: rest =>
    let name := rest.takeWhile isNameChar
    match rest.drop name.length with
    | '!' :: _ => .ok (String.ofList ('!' :: name ++ ['!']), cursor.pass (name.length + 2))
    | rest => .error (unexpected rest)
  | rest => .error (unexpected rest)

structure Shorthand where
  handle : Option String := none
  suffix : String
  deriving DecidableEq, Repr

def fullTag (cursor : Cursor) : Except Fault (Shorthand × Cursor) := do
  let (suffix, after) ← address cursor
  match after.rest with
  | '>' :: _ => return ({ suffix }, after.next)
  | rest => throw (unexpected rest)

/-- A tag behind a handle; one exclamation mark is the handle of a tag without another. -/
def handledTag (cursor : Cursor) : Except Fault (Shorthand × Cursor) := do
  let word := cursor.next.rest.takeWhile fun c => c != ' ' && !isBreak c
  let (handle, after) ← if word.contains '!' then handle cursor else .ok ("!", cursor.next)
  let (suffix, after) ← address after
  return ({ handle, suffix }, after)

def shorthand (cursor : Cursor) : Except Fault (Shorthand × Cursor) := do
  let (tag, after) ← match cursor.next.rest with
    | '<' :: _ => fullTag (cursor.pass 2)
    | rest =>
      if Cursor.atGap rest then .ok ({ suffix := "!" }, cursor.next) else handledTag cursor
  if endsWord after.rest then return (tag, after) else throw .malformed

/-! ### Directives -/

inductive Directive
  | version (major : Int)
  | handle (name start : String)
  /-- One that says nothing. -/
  | other
  deriving DecidableEq, Repr

namespace Directive

def readNumber (cursor : Cursor) : Except Fault (Int × Cursor) := do
  let digits := cursor.rest.takeWhile Char.isDigit
  if digits.isEmpty then throw (unexpected cursor.rest)
  let n ← (Numeral.read 10 (String.ofList digits)).mapError Fault.whole
  return (n, cursor.pass digits.length)

def readVersion (cursor : Cursor) : Except Fault (Directive × Cursor) := do
  let (major, after) ← readNumber (cursor.passWhile (· == ' '))
  match after.rest with
  | '.' :: _ =>
    let (_, after) ← readNumber after.next
    if endsWord after.rest then return (.version major, after) else throw .malformed
  | rest => throw (unexpected rest)

def readHandle (cursor : Cursor) : Except Fault (Directive × Cursor) := do
  let (name, after) ← Yaml.handle (cursor.passWhile (· == ' '))
  if after.rest.head? ≠ some ' ' then throw (unexpected after.rest)
  let (start, after) ← address (after.passWhile (· == ' '))
  if endsWord after.rest then return (.handle name start, after) else throw .malformed

def read (cursor : Cursor) : Except Fault (Directive × Cursor) := do
  let name := cursor.rest.takeWhile isNameChar
  let after := cursor.pass name.length
  if name.isEmpty || !endsWord after.rest then throw (unexpected after.rest)
  let (directive, after) ←
    if name = ['Y', 'A', 'M', 'L'] then readVersion after
    else if name = ['T', 'A', 'G'] then readHandle after
    else .ok (.other, after.passWhile fun c => !isBreak c)
  return (directive, ← Block.finishLine after)

end Directive

end UtilityCss.Yaml
