import UtilityCss.Yaml.Cursor
import UtilityCss.Yaml.Fault

/-!
# Scalars in the text

A quoted scalar runs to its closing quote, a plain one to a colon, a comment or the end of its block. Both may
go on in further lines: one line end is read as a space, of several the first is dropped.
-/

namespace UtilityCss.Yaml

def folded (run : List Char) : List Char :=
  match (run.filter isBreak).map unifiedBreak with
  | [] => run
  | ['\n'] => [' ']
  | '\n' :: more => more
  | breaks => breaks

/-! ### Quoted -/

def escapes : List (Char × Char) := [
  ('0', '\x00'), ('a', '\x07'), ('b', '\x08'), ('t', '\t'), ('\t', '\t'), ('n', '\n'),
  ('v', '\x0b'), ('f', '\x0c'), ('r', '\r'), ('e', '\x1b'), (' ', ' '), ('"', '"'),
  ('\\', '\\'), ('/', '/'), ('N', '\u0085'), ('_', '\u00a0'), ('L', '\u2028'), ('P', '\u2029')]

def codeWidths : List (Char × Nat) := [('x', 2), ('u', 4), ('U', 8)]

def hexValue? (c : Char) : Option Nat :=
  if c.isDigit then some (c.toNat - '0'.toNat)
  else if 'a' ≤ c.toLower ∧ c.toLower ≤ 'f' then some (c.toLower.toNat - 'a'.toNat + 10)
  else none

def code (width : Nat) (cs : List Char) : Except Fault Nat :=
  let digits := cs.takeWhile fun c => (hexValue? c).isSome
  if width ≤ digits.length then
    .ok ((digits.take width).foldl (fun n c => 16 * n + (hexValue? c).getD 0) 0)
  else .error (if cs.length < width then .ended else .malformed)

def lowUnit (cs : List Char) : Except Fault Nat := do
  match cs with
  | '\\' :: 'u' :: rest =>
    let low ← code 4 rest
    if 0xDC00 ≤ low ∧ low < 0xE000 then return low else throw .malformed
  | _ => throw .malformed

def coded (width : Nat) (cs : List Char) : Except Fault (Char × Nat) := do
  let high ← code width cs
  if 0xD800 ≤ high ∧ high < 0xDC00 then
    let low ← lowUnit (cs.drop width)
    return (Char.ofNat (0x10000 + (high - 0xD800) * 0x400 + (low - 0xDC00)), width + 6)
  else if high.isValidChar then return (Char.ofNat high, width)
  else if high < 0xE000 then throw .malformed
  else throw (.character high)

def gap (read : List Char → List Char) (cursor : Cursor) : Except Fault (List Char × Cursor) :=
  let run := cursor.rest.takeWhile isGap
  let after := cursor.pass run.length
  if after.atAnyDivider then .error .malformed else .ok (read run, after)

def onlyBreaks (run : List Char) : List Char := (run.filter isBreak).map unifiedBreak

def escape (cursor : Cursor) : Except Fault (List Char × Cursor) := do
  match cursor.rest with
  | [] => throw .ended
  | c :: rest =>
    match escapes.lookup c, codeWidths.lookup c with
    | some meant, _ => return ([meant], cursor.next)
    | none, some width =>
      let (meant, used) ← coded width rest
      return ([meant], cursor.next.pass used)
    | none, none => if isBreak c then gap onlyBreaks cursor.next else throw .malformed

/-- A quoted scalar from behind its opening quote on; `done` was read before, its last character first.
Every step takes a character, so that the length of the text is fuel enough. -/
def quotedFrom (quote : Char) (fuel : Nat) (done : List Char) (cursor : Cursor) :
    Except Fault (String × Cursor) :=
  match fuel, cursor.rest with
  | 0, _ | _, [] => .error .ended
  | fuel + 1, c :: rest =>
    if c = quote then
      if quote = '\'' ∧ rest.head? = some quote then
        quotedFrom quote fuel (quote :: done) cursor.next.next
      else .ok (String.ofList done.reverse, cursor.next)
    else if isGap c then
      match gap folded cursor with
      | .error fault => .error fault
      | .ok (meant, after) => quotedFrom quote fuel (meant.reverse ++ done) after
    else if c = '\\' ∧ quote = '"' then
      match escape cursor.next with
      | .error fault => .error fault
      | .ok (meant, after) => quotedFrom quote fuel (meant.reverse ++ done) after
    else quotedFrom quote fuel (c :: done) cursor.next

/-! ### Plain -/

def isFlowMark (c : Char) : Bool := [',', '[', ']', '\x7b', '\x7d'].contains c

def colonEnds (inFlow : Bool) (rest : List Char) : Bool :=
  rest.head?.all fun c => isGap c || (inFlow && isFlowMark c)

def plainEnds (inFlow : Bool) (c : Char) (rest : List Char) : Bool :=
  isGap c || (c == ':' && colonEnds inFlow rest) || (inFlow && (isFlowMark c || c == '?'))

def plainRunFrom (inFlow : Bool) (done : List Char) : List Char → List Char
  | [] => done
  | c :: rest => if plainEnds inFlow c rest then done else plainRunFrom inFlow (c :: done) rest

def plainGap (cursor : Cursor) : List Char × Cursor × Bool :=
  let spaces := cursor.rest.takeWhile (· == ' ')
  let lineEnd := cursor.pass spaces.length
  if lineEnd.rest.head?.any isBreak then
    let run := lineEnd.rest.takeWhile fun c => c == ' ' || isBreak c
    let after := lineEnd.pass run.length
    (if after.atAnyDivider then [] else folded run, after, true)
  else (spaces, lineEnd, false)

/-- A plain scalar. It ends before a comment and, outside brackets, before a line that begins left of
`indent`. The last result tells whether it ends with a line. -/
def plainFrom (inFlow : Bool) (indent : Nat) (fuel : Nat) (done gap : List Char) (newLine : Bool)
    (cursor : Cursor) : String × Cursor × Bool :=
  let run := plainRunFrom inFlow [] cursor.rest
  match fuel with
  | 0 => (String.ofList done.reverse, cursor, newLine)
  | fuel + 1 =>
    if cursor.rest.head? = some '#' || run.isEmpty then
      (String.ofList done.reverse, cursor, newLine)
    else
      let done := run ++ gap.reverse ++ done
      let (gap, after, newLine) := plainGap (cursor.pass run.length)
      if gap.isEmpty || after.rest.head? = some '#' || (!inFlow && after.column < indent) then
        (String.ofList done.reverse, after, newLine)
      else plainFrom inFlow indent fuel done gap newLine after

end UtilityCss.Yaml
