import UtilityCss.Text.Blank
import UtilityCss.Token

/-!
# Class names in a class list

A class list is divided at white space. Each piece is freed of the punctuation of a surrounding expression,
and kept if what remains can be a class name and, unless utilities may be unprefixed, looks like a prefixed
utility.
-/

namespace UtilityCss.Scan

def isNameChar (c : Char) : Bool :=
  c.isAlphanum || ['_', ':', '[', ']', '-', '.', '/', '%', '#'].contains c

/-- Quotes at both ends go first, then closing punctuation, then opening parentheses. -/
def clean (cs : List Char) : List Char :=
  let unquoted := Text.strip (['"', '\''].contains ·) (Text.strip Text.isBlank cs)
  (Text.stripEnd ([')', ',', ';'].contains ·) unquoted).dropWhile (· == '(')

def operators : List String := ["==", "!=", "&&", "||", "?", ":", "=>", "="]

def isFragment (piece : String) : Bool :=
  Text.beginsWith "@" piece || piece.toList.any ['(', '\x7b', '\x7d'].contains || operators.contains piece

def startsMarked (naming : Naming) (cs : List Char) : Bool :=
  let marker := naming.marker.toList
  marker.isPrefixOf cs || ('-' :: marker).isPrefixOf cs

/-- The marker of the project, with or without a sign, begins the text or what follows its last colon. -/
def looksPrefixed (naming : Naming) (text : String) : Bool :=
  let cs := text.toList
  if Text.allBlank cs then false
  else if naming.classPrefix.isEmpty then true
  else if startsMarked naming cs then true
  else match Text.lastCut? ':' cs with
    | some (before, after) => !before.isEmpty && startsMarked naming after
    | none => false

def isName (piece : String) : Bool := !piece.isEmpty && piece.toList.all isNameChar

end UtilityCss.Scan
