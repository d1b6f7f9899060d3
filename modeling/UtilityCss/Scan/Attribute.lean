import UtilityCss.Scan.Literal
import UtilityCss.Text.Blank
import UtilityCss.Text.Cut

/-!
# Attributes and assignments

A name, an equals sign and a quoted value, with white space around the sign. The value ends at the next
quote; an expression in `@(...)` ends at the next parenthesis, which the quote must follow.
-/

namespace UtilityCss.Scan

/-- Letters that differ in case only. The long s and the two Turkish forms of i are among them. -/
def foldCase (c : Char) : Char :=
  if c = '\u017F' then 's' else if c = '\u0130' ∨ c = '\u0131' then 'i' else c.toLower

def afterWord? (fold : Char → Char) : List Char → List Char → Option (List Char)
  | [], cs => some cs
  | _ :: _, [] => none
  | w :: word, c :: cs => if fold w = fold c then afterWord? fold word cs else none

structure Assignment where
  names : List String
  anyCase : Bool := false
  /-- What stands between the equals sign and the value. -/
  opening : String := "\""

namespace Assignment

def afterOpening? (assignment : Assignment) (name : String) (cs : List Char) : Option (List Char) := do
  let fold := if assignment.anyCase then foldCase else id
  let rest ← afterWord? fold name.toList cs
  match rest.dropWhile Text.isBlank with
  | '=' :: rest => assignment.opening.toList.isPrefixOf? (rest.dropWhile Text.isBlank)
  | _ => none

def read? (assignment : Assignment) (value? : Reader (List Char)) : Reader (List Char) := fun cs =>
  assignment.names.findSome? fun name => do
    let rest ← assignment.afterOpening? name cs
    value? rest

def values (assignment : Assignment) (cs : List Char) : List (List Char) :=
  occurrences (assignment.read? (Text.firstCut? '"')) cs

end Assignment

def expression? : Reader (List Char) := fun cs => do
  let (inside, rest) ← Text.firstCut? ')' cs
  match rest with
  | '"' :: rest => if inside.isEmpty then none else some (inside, rest)
  | _ => none

def classAttributes : List Assignment := [
  { names := ["class", "Class"] },
  { names := ["@class"] },
  { names := ["class"], opening := "@\"" },
  { names := ["className"] },
  { names := ["AdditionalClasses", "CssClass", "ExtraClasses", "ClassNames"], anyCase := true }]

def expressionAttribute : Assignment := { names := ["class"], opening := "\"@(" }

/-- The expressions that are the whole value of a class assignment. -/
def expressions (cs : List Char) : List (List Char) :=
  occurrences (expressionAttribute.read? expression?) cs

def classProperty : Assignment :=
  { names := ["CssClass", "Class", "ClassName", "Classes"], anyCase := true }

end UtilityCss.Scan
