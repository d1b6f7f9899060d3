import UtilityCss.Text.Blank
import UtilityCss.Text.Cut
import UtilityCss.Text.Digit
import UtilityCss.Text.Quoted

/-!
# Flags

An argument that begins with a dash is a flag. A long one may be shortened as far as it stays unique, and
its value may be attached with an equals sign; the value of a short one may follow it directly or with an
equals sign between them. Negative numbers and arguments with a space in them are no flags, unless they
begin like one.
-/

namespace UtilityCss.CommandLine

inductive FlagKind
  | switch
  | text
  /-- Yes or no; on its own it means yes. -/
  | truth
  deriving DecidableEq, Repr

structure Flag where
  /-- The first spelling stands for the flag. -/
  spellings : List String
  kind : FlagKind := .text
  deriving DecidableEq, Repr

def Flag.name (flag : Flag) : String := flag.spellings.head?.getD ""

def find? (flags : List Flag) (spelling : String) : Option Flag :=
  flags.find? fun flag => flag.spellings.contains spelling

/-! ### Truth words -/

def yesWords : List String := ["true", "yes", "1", "on"]

def noWords : List String := ["false", "no", "0", "off"]

def truth? (text : String) : Option Bool :=
  let word := String.ofList ((Text.strip Text.isBlank text.toList).map Char.toLower)
  if yesWords.contains word then some true
  else if noWords.contains word then some false
  else none

def truthComplaint (text : String) : String := "expected true or false, got " ++ Text.quoted text

/-! ### Arguments -/

/-- What follows the spelling of a flag in the same argument. -/
inductive Attached
  | nothing
  /-- After a long spelling and an equals sign. -/
  | assigned (text : String)
  /-- After a short spelling, with or without an equals sign. -/
  | adjoined (text : String)
  deriving DecidableEq, Repr

/-- What an argument is among the flags of a command. -/
inductive Word
  | plain (text : String)
  /-- All arguments after it are plain. -/
  | divider
  | unknown
  | flag (flag : Flag) (attached : Attached)
  deriving DecidableEq, Repr

def isLong (text : List Char) : Bool := ['-', '-'].isPrefixOf text

def beforeSign (text : String) : String × Attached :=
  match Text.cutFirst? '=' text with
  | some (name, value) => (name, if isLong name.toList then .assigned value else .adjoined value)
  | none => (text, .nothing)

def spellings (flags : List Flag) : List (Flag × String) :=
  flags.flatMap fun flag => flag.spellings.map fun spelling => (flag, spelling)

def completions (flags : List Flag) (text : String) : List Word :=
  let cs := text.toList
  if isLong cs then
    let (start, attached) := beforeSign text
    (spellings flags).filterMap fun (flag, spelling) =>
      if Text.beginsWith start spelling then some (.flag flag attached) else none
  else
    let letter := String.ofList (cs.take 2)
    (spellings flags).filterMap fun (flag, spelling) =>
      if spelling = letter then some (.flag flag (.adjoined (String.ofList (cs.drop 2))))
      else if Text.beginsWith text spelling then some (.flag flag .nothing)
      else none

def isMagnitude (cs : List Char) : Bool :=
  match Text.firstCut? '.' cs with
  | none => !cs.isEmpty && cs.all Text.isAnyDigit
  | some (whole, fraction) =>
    whole.all Text.isAnyDigit && !fraction.isEmpty && fraction.all Text.isAnyDigit

def isNegativeNumber (cs : List Char) : Bool :=
  match cs with
  | '-' :: rest =>
    isMagnitude rest || (rest.getLast? = some '\n' && isMagnitude rest.dropLast)
  | _ => false

def unspelled (text : String) : Word :=
  if isNegativeNumber text.toList || text.toList.contains ' ' then .plain text else .unknown

def dashed? (flags : List Flag) (text : String) : Option Word :=
  let (name, attached) := beforeSign text
  match find? flags text, find? flags name with
  | some flag, _ => some (.flag flag .nothing)
  | none, some flag => some (.flag flag attached)
  | none, none => match completions flags text with
    | [] => some (unspelled text)
    | [word] => some word
    | _ => none

def word? (flags : List Flag) (text : String) : Option Word :=
  match text.toList with
  | '-' :: _ :: _ => dashed? flags text
  | _ => some (.plain text)

def words? (flags : List Flag) : List String → Option (List (String × Word))
  | [] => some []
  | "--" :: rest => some (("--", .divider) :: rest.map fun text => (text, .plain text))
  | text :: rest => do
    let word ← word? flags text
    let words ← words? flags rest
    some ((text, word) :: words)

end UtilityCss.CommandLine
