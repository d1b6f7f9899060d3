import UtilityCss.CommandLine.Flag

/-!
# Arguments of a command

A command takes flags and at most one plain argument, in any order. A short switch may be followed by other
short flags in the same argument, which is read as a whole before any of them takes effect. Arguments that
find no place make the line unusable, but only after all others were read: a flag that asks for help comes
first.
-/

namespace UtilityCss.CommandLine

inductive Stop
  /-- Someone asks for help, with a command if one is given. -/
  | help (command : Option String)
  | version
  | unusable
  deriving DecidableEq, Repr

structure Arguments where
  /-- The flags that were given, the last one first. -/
  given : List (String × Option String) := []
  plain : Option String := none
  /-- Whether the plain argument may still come. -/
  expecting : Bool
  /-- Some argument found no place. -/
  surplus : Bool := false
  deriving DecidableEq, Repr

structure Command (α : Type) where
  name : String
  flags : List Flag
  takesPlain : Bool := true
  /-- What the arguments ask for. -/
  request : Arguments → α

namespace Arguments

def text? (arguments : Arguments) (name : String) : Option String :=
  (arguments.given.lookup name).join

def has (arguments : Arguments) (name : String) : Bool := (arguments.given.lookup name).isSome

/-- What is kept of a text behind a flag. The divider as a value says nothing: it counts as no text, and for
yes or no as the flag on its own. -/
def kept (flag : Flag) (text : String) : Option String :=
  if text ≠ "--" then some text else if flag.kind = .truth then none else some ""

def add (arguments : Arguments) (flag : Flag) (value : Option String) : Except Stop Arguments :=
  if flag.name = "--help" then .error (.help none)
  else if flag.name = "--version" then .error .version
  else
    let value := value.bind (kept flag)
    if flag.kind = .truth && value.any fun text => (truth? text).isNone then .error .unusable
    else .ok { arguments with given := (flag.name, value) :: arguments.given }

def addAll (arguments : Arguments) (given : List (Flag × Option String)) : Except Stop Arguments :=
  given.foldlM (fun arguments entry => arguments.add entry.1 entry.2) arguments

end Arguments

def nextValue? (flag : Flag) (next : Option Word) : Option (Option String × Nat) :=
  match flag.kind, next with
  | .switch, _ => some (none, 0)
  | _, some (.plain text) => some (some text, 1)
  | .truth, _ => some (none, 0)
  | .text, _ => none

structure Spread where
  /-- Those whose values are known. -/
  given : List (Flag × Option String) := []
  /-- A last one that may take its value from the next argument. -/
  last : Option Flag := none
  deriving DecidableEq, Repr

namespace Spread

def after (flag : Flag) (spread : Spread) : Spread :=
  { spread with given := (flag, none) :: spread.given }

def assigned? (flag : Flag) (text : String) : Option Spread :=
  if flag.kind = .switch then none else some { given := [(flag, some text)] }

def adjoined? (flags : List Flag) (flag : Flag) : List Char → Option Spread
  | [] => assigned? flag ""
  | c :: rest =>
    if flag.kind ≠ .switch then assigned? flag (String.ofList (c :: rest))
    else match find? flags (String.ofList ['-', c]), rest with
      | none, _ => none
      | some next, [] => some { given := [(flag, none)], last := some next }
      | some next, rest => (adjoined? flags next rest).map (after flag)

def of? (flags : List Flag) (flag : Flag) : Attached → Option Spread
  | .nothing => some { last := some flag }
  | .assigned text => assigned? flag text
  | .adjoined text => adjoined? flags flag text.toList

def completed? (spread : Spread) (next : Option Word) :
    Option (List (Flag × Option String) × Nat) :=
  match spread.last with
  | none => some (spread.given, 0)
  | some last =>
    (nextValue? last next).map fun (value, used) => (spread.given ++ [(last, value)], used)

end Spread

namespace Arguments

def addSpread (arguments : Arguments) (spread : Spread) (next : Option Word) :
    Except Stop (Arguments × Nat) :=
  match spread.completed? next with
  | none => .error .unusable
  | some (given, used) => (arguments.addAll given).map fun arguments => (arguments, used)

def addFlag (flags : List Flag) (arguments : Arguments) (flag : Flag) (attached : Attached)
    (next : Option Word) : Except Stop (Arguments × Nat) :=
  match Spread.of? flags flag attached with
  | none => .error .unusable
  | some spread => arguments.addSpread spread next

def surplused (arguments : Arguments) : Arguments := { arguments with surplus := true }

def takePlain (arguments : Arguments) (text : String) : Arguments :=
  { arguments with plain := some text, expecting := false }

/-- The arguments of a command, when the next `skip` words are used up already. -/
def ofWords (flags : List Flag) (skip : Nat) (arguments : Arguments) :
    List Word → Except Stop Arguments
  | [] => .ok arguments
  | word :: rest =>
    match skip, word with
    | skip + 1, _ => ofWords flags skip arguments rest
    | 0, .unknown => ofWords flags 0 arguments.surplused rest
    | 0, .flag flag attached => do
      let (arguments, used) ← addFlag flags arguments flag attached rest.head?
      ofWords flags used arguments rest
    | 0, .plain text =>
      if arguments.expecting then
        ofWords flags (if rest.head? = some .divider then 1 else 0) (arguments.takePlain text) rest
      else ofWords flags 0 arguments.surplused rest
    | 0, .divider =>
      match arguments.expecting, rest.head? with
      | true, some (.plain text) => ofWords flags 1 (arguments.takePlain text) rest
      | true, _ => ofWords flags 0 { arguments with expecting := false } rest
      | false, _ => ofWords flags 0 arguments.surplused rest

def ofTexts (flags : List Flag) (takesPlain : Bool) (texts : List String) : Except Stop Arguments :=
  match words? flags texts with
  | none => .error .unusable
  | some words => ofWords flags 0 { expecting := takesPlain } (words.map Prod.snd)

end Arguments

/-! ### The whole line -/

def helpFlag : Flag := { spellings := ["--help", "-h"], kind := .switch }

def versionFlag : Flag := { spellings := ["--version"], kind := .switch }

def outerFlags : List Flag := [helpFlag, versionFlag]

variable {α : Type}

def Stop.within (command : String) : Stop → Stop
  | help _ => help (some command)
  | stop => stop

def Command.ask (command : Command α) (surplus : Bool) (texts : List String) : Except Stop α := do
  let arguments ← (Arguments.ofTexts command.flags command.takesPlain texts).mapError
    (Stop.within command.name)
  if surplus || arguments.surplus then .error .unusable else .ok (command.request arguments)

def ofLine (commands : List (Command α)) (surplus : Bool) : List (String × Word) → Except Stop α
  | [] => .error .unusable
  | (text, word) :: rest =>
    match word with
    | .unknown => ofLine commands true rest
    | .flag flag attached => do
      let _ ← Arguments.addFlag outerFlags { expecting := false } flag attached none
      ofLine commands surplus rest
    | .plain _ | .divider =>
      match commands.find? fun command => command.name = text with
      | none => .error .unusable
      | some command => command.ask surplus (rest.map Prod.fst)

def parse (commands : List (Command α)) (line : List String) : Except Stop α :=
  match words? outerFlags line with
  | none => .error .unusable
  | some words => ofLine commands false words

end UtilityCss.CommandLine
