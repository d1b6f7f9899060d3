import UtilityCss.Text.Cut
import UtilityCss.Text.Blank

/-!
# Paths

A path is written as names divided by slashes. Empty names and single dots mean nothing and are dropped; a
double dot is kept, since what it leads to depends on the files. An absolute path begins with a slash, or
with exactly two, which lead to the same place but are written otherwise. A location is where an absolute
path without double dots leads.
-/

namespace UtilityCss

abbrev Location := List String

inductive Anchor
  | relative
  | root
  | doubleRoot
  deriving DecidableEq, Repr

namespace Anchor

def text : Anchor → String
  | relative => ""
  | root => "/"
  | doubleRoot => "//"

/-- Two slashes at the beginning are one anchor; three or more are as good as one. -/
def ofChars : List Char → Anchor
  | '/' :: '/' :: '/' :: _ => root
  | '/' :: '/' :: _ => doubleRoot
  | '/' :: _ => root
  | _ => relative

end Anchor

structure Path where
  anchor : Anchor := .relative
  parts : List String := []
  deriving DecidableEq, Repr

namespace Path

def isAbsolute (path : Path) : Bool := path.anchor ≠ .relative

def isMeaningful (part : String) : Bool := part ≠ "" && part ≠ "."

def partsOf (text : String) : List String :=
  ((Text.pieces (· == '/') text.toList).map String.ofList).filter isMeaningful

def ofText (text : String) : Path :=
  { anchor := .ofChars text.toList, parts := partsOf text }

def ofLocation (location : Location) : Path := { anchor := .root, parts := location }

def text (path : Path) : String :=
  if !path.isAbsolute && path.parts.isEmpty then "."
  else path.anchor.text ++ "/".intercalate path.parts

def join (base path : Path) : Path :=
  if path.isAbsolute then path else { base with parts := base.parts ++ path.parts }

def child (base : Path) (name : String) : Path := { base with parts := base.parts ++ [name] }

def below (base : Path) (names : List String) : Path := { base with parts := base.parts ++ names }

def parent (path : Path) : Path := { path with parts := path.parts.dropLast }

def name (path : Path) : String := path.parts.getLast?.getD ""

def names (path : Path) : List String :=
  if path.isAbsolute then path.anchor.text :: path.parts else path.parts

def below? (path root : Path) : Option (List String) :=
  if path.anchor = root.anchor then root.parts.isPrefixOf? path.parts else none

/-- The names of the folders between a root and a path, or of all folders on the way to a path that is
elsewhere. -/
def foldersFrom (path root : Path) : List String := ((path.below? root).getD path.names).dropLast

def extension (path : Path) : String :=
  match Text.lastCut? '.' path.name.toList with
  | some (stem, ending) =>
    if stem.isEmpty || ending.isEmpty then "" else String.ofList ('.' :: ending)
  | none => ""

def follow (location : Location) (part : String) : Location :=
  if part = ".." then location.dropLast else location ++ [part]

/-- Where a path leads from a location, read off its names alone. -/
def resolve (path : Path) (here : Location) : Location :=
  path.parts.foldl follow (if path.isAbsolute then [] else here)

/-- The absolute path that a path means at a location, without double dots. -/
def absoluteAt (path : Path) (here : Location) : Path where
  anchor := if path.isAbsolute then path.anchor else .root
  parts := path.resolve here

end Path

end UtilityCss
