/-!
# Places in a text

A cursor is the rest of a text together with the line and the column at which it begins. Lines end at a line
feed or at one of the other characters that end lines.
-/

namespace UtilityCss.Yaml

def isBreak (c : Char) : Bool :=
  c == '\n' || c == '\r' || c == '\u0085' || c == '\u2028' || c == '\u2029'

def isGap (c : Char) : Bool := c == ' ' || c == '\t' || isBreak c

def unifiedBreak (c : Char) : Char := if c = '\u2028' ∨ c = '\u2029' then c else '\n'

structure Cursor where
  rest : List Char
  line : Nat := 0
  column : Nat := 0
  /-- How many characters stand before the cursor. -/
  index : Nat := 0
  deriving Repr

namespace Cursor

/-- One character further. A byte order mark takes no column. -/
def next (cursor : Cursor) : Cursor :=
  match cursor.rest with
  | [] => cursor
  | c :: rest =>
    if isBreak c then { rest, line := cursor.line + 1, column := 0, index := cursor.index + 1 }
    else { cursor with
      rest
      column := if c = '\uFEFF' then cursor.column else cursor.column + 1
      index := cursor.index + 1 }

def pass (cursor : Cursor) : Nat → Cursor
  | 0 => cursor
  | n + 1 => cursor.next.pass n

def passWhile (cursor : Cursor) (drops : Char → Bool) : Cursor :=
  cursor.pass (cursor.rest.takeWhile drops).length

def atGap (rest : List Char) : Bool := rest.head?.all isGap

def atDivider (mark : Char) (cursor : Cursor) : Bool :=
  cursor.column = 0 &&
    match cursor.rest with
    | a :: b :: c :: rest => a == mark && b == mark && c == mark && atGap rest
    | _ => false

def atAnyDivider (cursor : Cursor) : Bool := cursor.atDivider '-' || cursor.atDivider '.'

end Cursor

end UtilityCss.Yaml
