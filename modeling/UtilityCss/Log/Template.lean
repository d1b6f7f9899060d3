import UtilityCss.Binary64.Places
import UtilityCss.Text.Cut
import UtilityCss.Value.Shown

/-!
# Message templates

A message can have slots that are filled with values when it is written. A slot begins with a percent sign
and ends with the letter of a conversion. Between them stand a key in parentheses, flags, a width and a
number of places, each of which may be left out; a star in place of a number takes it from the values. Two
percent signs stand for one. The values come one by one, or by the keys of a mapping.
-/

namespace UtilityCss.Log.Template

inductive Fault
  /-- Too few values, too many, or one of the wrong kind. -/
  | mistyped
  | missing (key : String)
  | unfinished
  | unfinishedKey
  | tooWide
  | tooManyPlaces
  /-- A number too great for a conversion. -/
  | tooGreat
  /-- What is not a number has no whole part. -/
  | undefined
  /-- There is no room for so many characters. -/
  | tooLong
  /-- A whole number with too many digits. -/
  | unwritable
  | unsupported (conversion : Char) (index : Nat)
  deriving DecidableEq, Repr

def shownConversion (c : Char) : Char := if 31 ≤ c.toNat ∧ c.toNat < 127 then c else '?'

def Fault.message : Fault → String
  | mistyped => "the values do not fit the message"
  | missing key => Text.quoted key
  | unfinished => "incomplete format"
  | unfinishedKey => "incomplete format key"
  | tooWide => "width too big"
  | tooManyPlaces => "precision too big"
  | tooGreat => "the number is too great"
  | tooLong => "the text is too long"
  | unwritable => (Numeral.Fault.tooLong none).message
  | undefined => "cannot convert float NaN to integer"
  | unsupported c index =>
    "unsupported format character '" ++ String.singleton (shownConversion c) ++ "' (0x" ++
      String.ofList (Nat.toDigits 16 c.toNat) ++ s!") at index {index}"

/-! ### Where the values come from -/

inductive Source
  | listed (values : List Value)
  /-- The value that was looked up last, or the whole mapping, is there until it is taken. -/
  | keyed (entries : Entries) (ready : Option Value)
  deriving BEq, Repr

namespace Source

/-- A mapping that is the only value is looked up by its keys. -/
def ofValues : List Value → Source
  | [.mapping (entry :: entries)] => .keyed (entry :: entries) (some (.mapping (entry :: entries)))
  | values => .listed values

def hasKeys : Source → Bool
  | listed _ => false
  | keyed .. => true

def select (source : Source) (key : String) : Except Fault Source :=
  match source with
  | listed _ => .error .mistyped
  | keyed entries _ =>
    match Entries.get? entries key with
    | some value => .ok (.keyed entries (some value))
    | none => .error (.missing key)

def take : Source → Except Fault (Value × Source)
  | listed (value :: rest) => .ok (value, .listed rest)
  | keyed entries (some value) => .ok (value, .keyed entries none)
  | listed [] | keyed _ none => .error .mistyped

def isSpent : Source → Bool
  | listed values => values.isEmpty
  | keyed .. => true

end Source

/-! ### Slots -/

structure Slot where
  flags : List Char := []
  width : Option Nat := none
  places : Option Nat := none
  deriving DecidableEq, Repr

def Slot.has (slot : Slot) (flag : Char) : Bool := slot.flags.contains flag

def balanced? (depth : Nat) : List Char → Option (List Char × List Char)
  | [] => none
  | c :: cs =>
    let next := if c = '(' then depth + 1 else if c = ')' then depth - 1 else depth
    if next = 0 then some ([], cs) else (balanced? next cs).map fun (key, rest) => (c :: key, rest)

def key (source : Source) : List Char → Except Fault (Source × List Char)
  | '(' :: cs =>
    if !source.hasKeys then .error .mistyped
    else match balanced? 1 cs with
      | none => .error .unfinishedKey
      | some (key, rest) => (source.select (String.ofList key)).map fun source => (source, rest)
  | cs => .ok (source, cs)

def isFlag (c : Char) : Bool := ['-', '+', ' ', '#', '0'].contains c

def greatestWidth : Nat := 9223372036854775807

def greatestPlaces : Nat := 2147483647

def number (greatest : Nat) (fault : Fault) (cs : List Char) :
    Except Fault (Option Nat × List Char) :=
  let digits := cs.takeWhile Char.isDigit
  let n := digits.foldl (fun n c => 10 * n + (c.toNat - '0'.toNat)) 0
  if digits.isEmpty then .ok (none, cs)
  else if greatest < n then .error fault
  else .ok (some n, cs.drop digits.length)

def starred (greatest : Nat) (source : Source) : Except Fault (Int × Source) := do
  let (value, source) ← source.take
  let n ← match value with
    | .bool b => pure (if b then 1 else 0)
    | .int n => pure n
    | _ => throw .mistyped
  if n < -Int.ofNat greatest - 1 ∨ Int.ofNat greatest < n then throw .tooGreat
  return (n, source)

/-- A width from the values may be below zero, which means the flag for the left side. The least of all counts
for no width. -/
def width (slot : Slot) (source : Source) (cs : List Char) :
    Except Fault (Slot × Source × List Char) :=
  match cs with
  | '*' :: rest => do
    let (n, source) ← starred greatestWidth source
    let flags := if n < 0 then '-' :: slot.flags else slot.flags
    let width := if greatestWidth < n.natAbs then 0 else n.natAbs
    return ({ slot with flags, width := some width }, source, rest)
  | cs => do
    let (width, rest) ← number greatestWidth .tooWide cs
    return ({ slot with width }, source, rest)

def places (slot : Slot) (source : Source) (cs : List Char) :
    Except Fault (Slot × Source × List Char) :=
  match cs with
  | '.' :: '*' :: rest => do
    let (n, source) ← starred greatestPlaces source
    return ({ slot with places := some n.toNat }, source, rest)
  | '.' :: rest => do
    let (places, rest) ← number greatestPlaces .tooManyPlaces rest
    return ({ slot with places := some (places.getD 0) }, source, rest)
  | cs => .ok (slot, source, cs)

def isIdle (c : Char) : Bool := ['h', 'l', 'L'].contains c

def withoutIdle : List Char → List Char
  | c :: rest => if isIdle c then rest else c :: rest
  | [] => []

def slot (source : Source) (cs : List Char) : Except Fault (Slot × Source × List Char) := do
  let (source, cs) ← key source cs
  let flags := cs.takeWhile isFlag
  let (slot, source, cs) ← width { flags } source (cs.drop flags.length)
  let (slot, source, cs) ← places slot source cs
  return (slot, source, withoutIdle cs)

/-! ### Texts of values -/

structure Piece where
  isNumber : Bool := true
  before : List Char := []
  text : List Char
  deriving DecidableEq, Repr

def greatestLength : Nat := 100000000

def Piece.padded (piece : Piece) (slot : Slot) : List Char :=
  let gap := slot.width.getD 0 - (piece.before.length + piece.text.length)
  if slot.has '-' then piece.before ++ piece.text ++ List.replicate gap ' '
  else if piece.isNumber && slot.has '0' then piece.before ++ List.replicate gap '0' ++ piece.text
  else List.replicate gap ' ' ++ piece.before ++ piece.text

def sign (slot : Slot) (negative : Bool) : List Char :=
  if negative then ['-']
  else if slot.has '+' then ['+']
  else if slot.has ' ' then [' ']
  else []

def textPiece (slot : Slot) (cs : List Char) : Piece :=
  { isNumber := false, text := match slot.places with
      | some n => cs.take n
      | none => cs }

def commonOnly (cs : List Char) : List Char :=
  cs.flatMap fun c =>
    if c.toNat < 128 then [c]
    else if c.toNat ≤ 0xFF then '\\' :: 'x' :: Text.hexadecimal 2 c
    else if c.toNat ≤ 0xFFFF then '\\' :: 'u' :: Text.hexadecimal 4 c
    else '\\' :: 'U' :: Text.hexadecimal 8 c

def integer? : Value → Option Int
  | .bool b => some (if b then 1 else 0)
  | .int n => some n
  | _ => none

def whole (value : Value) : Except Fault Int :=
  match value with
  | .real .nan => .error .undefined
  | .real x =>
    match x.fraction? with
    | some (num, den) => .ok (num.tdiv (Int.ofNat den))
    | none => .error .tooGreat
  | value =>
    match integer? value with
    | some n => .ok n
    | none => .error .mistyped

def real (value : Value) : Except Fault Binary64 :=
  match value, integer? value with
  | .real x, _ => .ok x
  | _, none => .error .mistyped
  | _, some n =>
    match Binary64.ofInt n with
    | .infinite _ => .error .tooGreat
    | x => .ok x

def greatestDigits : Nat := greatestPlaces - 3

def wholePiece (slot : Slot) (base : Nat) (mark : List Char) (capital : Bool) (n : Int) :
    Except Fault Piece :=
  let digits := Nat.toDigits base n.natAbs
  let digits := if capital then digits.map Char.toUpper else digits
  let places := slot.places.getD 0
  if greatestDigits < places then .error .tooGreat
  else if greatestLength < places then .error .tooLong
  else .ok {
    before := sign slot (decide (n < 0)) ++ mark
    text := List.replicate (places - digits.length) '0' ++ digits }

def basePiece (slot : Slot) (base : Nat) (conversion : Char) (value : Value) : Except Fault Piece :=
  match integer? value with
  | some n =>
    wholePiece slot base (if slot.has '#' then ['0', conversion] else []) (conversion == 'X') n
  | none => .error .mistyped

def realPiece (slot : Slot) (style : Binary64.Style) (capital : Bool) (value : Value) :
    Except Fault Piece := do
  let x ← real value
  let layout : Binary64.Layout :=
    { style, places := slot.places.getD 6, capital, full := slot.has '#' }
  if greatestLength < layout.places && layout.keepsZeros then throw .tooLong
  return { before := sign slot x.isNegative, text := layout.magnitude x }

def charPiece (value : Value) : Except Fault Piece :=
  match value, integer? value with
  | .text s, _ =>
    match s.toList with
    | [c] => .ok { isNumber := false, text := [c] }
    | _ => .error .mistyped
  | _, none => .error .mistyped
  | _, some n =>
    if n < 0 ∨ 0x110000 ≤ n then .error .tooGreat
    else .ok { isNumber := false, text := [Char.ofNat n.toNat] }

def piece (slot : Slot) (conversion : Char) (index : Nat) (value : Value) : Except Fault Piece :=
  let written := fun cs : List Char =>
    if value.isShowable then .ok (textPiece slot cs) else .error .unwritable
  match conversion with
  | 's' => written value.shown.toList
  | 'r' => written value.inner.toList
  | 'a' => written (commonOnly value.inner.toList)
  | 'd' | 'i' | 'u' => do
    let n ← whole value
    if Numeral.isWritable n then wholePiece slot 10 [] false n else throw .unwritable
  | 'o' => basePiece slot 8 conversion value
  | 'x' | 'X' => basePiece slot 16 conversion value
  | 'e' => realPiece slot .scientific false value
  | 'E' => realPiece slot .scientific true value
  | 'f' => realPiece slot .fixed false value
  | 'F' => realPiece slot .fixed true value
  | 'g' => realPiece slot .general false value
  | 'G' => realPiece slot .general true value
  | 'c' => charPiece value
  | _ => .error (.unsupported conversion index)

/-! ### Whole messages -/

def filled (length : Nat) (source : Source) (cs : List Char) :
    Except Fault (List Char × Source × List Char) := do
  let (slot, source, cs) ← slot source cs
  match cs with
  | [] => throw .unfinished
  | conversion :: rest =>
    let (value, source) ← source.take
    let piece ← piece slot conversion (length - cs.length) value
    if greatestLength < slot.width.getD 0 then throw .tooLong
    return (piece.padded slot, source, rest)

/-- The rest of a message; `done` was read before, its last character first. Every step takes a character,
so that the length of the message is fuel enough. -/
def fillFrom (length fuel : Nat) (source : Source) (done : List Char) (cs : List Char) :
    Except Fault (List Char) :=
  match fuel, cs with
  | 0, _ | _, [] => if source.isSpent then .ok done.reverse else .error .mistyped
  | fuel + 1, '%' :: '%' :: rest => fillFrom length fuel source ('%' :: done) rest
  | fuel + 1, '%' :: rest =>
    match filled length source rest with
    | .error fault => .error fault
    | .ok (text, source, rest) => fillFrom length fuel source (text.reverse ++ done) rest
  | fuel + 1, c :: rest => fillFrom length fuel source (c :: done) rest

/-- A message with its slots filled. Without any values a message is no template. -/
def fill (message : String) (values : List Value) : Except Fault String :=
  let cs := message.toList
  if values.isEmpty then .ok message
  else (fillFrom cs.length cs.length (.ofValues values) [] cs).map String.ofList

end UtilityCss.Log.Template
