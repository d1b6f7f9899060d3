import UtilityCss.Files.Tree
import UtilityCss.Yaml.Fault

/-!
# What is wrong with a configuration

A configuration cannot be used when its file cannot be read, when its text is malformed or says what no
value can be, and when something in it is of another kind than it should be.
-/

namespace UtilityCss.Config

inductive Fault
  | missing (path : Path)
  | tooLarge (path : Path)
  | malformed (path : Path)
  | notMapping (path : Path)
  | file (error : FileError)
  | encoding (fault : Text.Utf8.Fault)
  /-- A value that cannot be read as what it should be. -/
  | unreadable (fault : Yaml.Fault)
  /-- A value of a kind that cannot be used where it stands. -/
  | mistyped
  /-- A number that is too great to be calculated with. -/
  | tooGreat
  deriving DecidableEq, Repr

def Fault.message : Fault → String
  | missing path => "Config not found: " ++ path.text
  | tooLarge path => "Config file too large: " ++ path.text
  | malformed path => "Invalid YAML in " ++ path.text
  | notMapping path => "Config must be a mapping: " ++ path.text
  | file error => error.message
  | encoding fault => fault.message
  | unreadable fault => fault.message
  | mistyped => "a value of another kind is needed"
  | tooGreat => "a number is too great"

def Fault.unwritable : Fault := .unreadable (.whole (.tooLong none))

def Fault.ofYaml (path : Path) : Yaml.Fault → Fault
  | .malformed | .ended => malformed path
  | fault => unreadable fault

end UtilityCss.Config
