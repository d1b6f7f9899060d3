import UtilityCss.Yaml.Cursor
import UtilityCss.Yaml.Fault

/-!
# Scalars in blocks of lines

After a bar or an angle bracket a scalar is the lines that follow, without their common indentation. A bar
keeps the ends of the lines; an angle bracket reads one between two lines as a space. A sign in the header
says whether the ends of the last lines are kept or dropped, a digit how far the lines are indented.
-/

namespace UtilityCss.Yaml

inductive Chomping
  /-- One is kept. -/
  | clip
  | keep
  | strip
  deriving DecidableEq, Repr

structure BlockHeader where
  chomping : Chomping := .clip
  /-- How many columns the lines are indented more than what surrounds them. -/
  indentation : Option Nat := none
  deriving DecidableEq, Repr

def BlockHeader.width (header : BlockHeader) : Nat :=
  (if header.chomping = .clip then 0 else 1) + (if header.indentation.isSome then 1 else 0)

namespace Block

def chomping? : Char → Option Chomping
  | '+' => some .keep
  | '-' => some .strip
  | _ => none

def indentation (cs : List Char) : Except Fault (Option Nat) :=
  match cs with
  | '0' :: _ => .error .malformed
  | c :: _ => .ok (if c.isDigit then some (c.toNat - '0'.toNat) else none)
  | [] => .ok none

def header (cs : List Char) : Except Fault BlockHeader := do
  match cs.head?.bind chomping? with
  | some chomping => return { chomping, indentation := ← indentation cs.tail }
  | none =>
    let indentation ← indentation cs
    let chomping := if indentation.isSome then cs.tail.head?.bind chomping? else none
    return { chomping := chomping.getD .clip, indentation }

def finishLine (cursor : Cursor) : Except Fault Cursor :=
  let cursor := cursor.passWhile (· == ' ')
  let cursor :=
    if cursor.rest.head? = some '#' then cursor.passWhile fun c => !isBreak c else cursor
  match cursor.rest with
  | [] => .ok cursor
  | c :: _ => if isBreak c then .ok cursor.next else .error .malformed

def passTo (column : Nat) (cursor : Cursor) : Cursor :=
  cursor.pass ((cursor.rest.take (column - cursor.column)).takeWhile (· == ' ')).length

/-- The line ends up to the next line that is not empty, and where that line begins at a column or before
it. The length of the text is fuel enough. -/
def breaksFrom (column fuel : Nat) (done : List Char) (cursor : Cursor) : List Char × Cursor :=
  let cursor := passTo column cursor
  match fuel, cursor.rest with
  | fuel + 1, c :: _ =>
    if isBreak c then breaksFrom column fuel (unifiedBreak c :: done) cursor.next
    else (done.reverse, cursor)
  | _, _ => (done.reverse, cursor)

def leadingFrom (fuel : Nat) (done : List Char) (column : Nat) (cursor : Cursor) :
    List Char × Nat × Cursor :=
  match fuel, cursor.rest with
  | fuel + 1, c :: _ =>
    if c = ' ' then leadingFrom fuel done (max column cursor.next.column) cursor.next
    else if isBreak c then leadingFrom fuel (unifiedBreak c :: done) column cursor.next
    else (done.reverse, column, cursor)
  | _, _ => (done.reverse, column, cursor)

def isSpace (c : Char) : Bool := c == ' ' || c == '\t'

def between (isFolded : Bool) (line next : List Char) (lineEnd breaks : List Char) : List Char :=
  if isFolded && lineEnd == ['\n'] && !line.head?.any isSpace && !next.head?.any isSpace then
    if breaks.isEmpty then [' '] else breaks
  else lineEnd ++ breaks

def chomped : Chomping → List Char → List Char → List Char
  | .strip, _, _ => []
  | .clip, lineEnd, _ => lineEnd
  | .keep, lineEnd, breaks => lineEnd ++ breaks

/-- The lines that begin at a column; `done` was read before, its last character first. Every line has a
character or an end, so that the length of the text is fuel enough. -/
def linesFrom (isFolded : Bool) (chomping : Chomping) (column fuel : Nat) (done : List Char)
    (cursor : Cursor) : List Char × Cursor :=
  let line := cursor.rest.takeWhile fun c => !isBreak c
  let after := cursor.pass line.length
  let lineEnd := (after.rest.take 1).map unifiedBreak
  let (breaks, next) := breaksFrom column fuel [] after.next
  let done := line.reverse ++ done
  match fuel with
  | 0 => (done.reverse, after)
  | fuel + 1 =>
    if next.column = column ∧ !next.rest.isEmpty then
      linesFrom isFolded chomping column fuel
        ((between isFolded line next.rest lineEnd breaks).reverse ++ done) next
    else (done.reverse ++ chomped chomping lineEnd breaks, next)

def start (header : BlockHeader) (least : Nat) (cursor : Cursor) : List Char × Nat × Cursor :=
  match header.indentation with
  | none =>
    let (breaks, column, cursor) := leadingFrom cursor.rest.length [] 0 cursor
    (breaks, max least column, cursor)
  | some more =>
    let column := least + more - 1
    let (breaks, cursor) := breaksFrom column cursor.rest.length [] cursor
    (breaks, column, cursor)

end Block

def blockScalar (isFolded : Bool) (least : Nat) (cursor : Cursor) : Except Fault (String × Cursor) := do
  let header ← Block.header cursor.rest
  let cursor := cursor.pass header.width
  match cursor.rest with
  | [] => pure ()
  | c :: _ => if c ≠ ' ' ∧ !isBreak c then throw .malformed
  let cursor ← Block.finishLine cursor
  let (breaks, column, cursor) := Block.start header least cursor
  if cursor.column = column ∧ !cursor.rest.isEmpty then
    let (text, after) := Block.linesFrom isFolded header.chomping column cursor.rest.length
      breaks.reverse cursor
    return (String.ofList text, after)
  else
    return (String.ofList (Block.chomped header.chomping [] breaks), cursor)

end UtilityCss.Yaml
