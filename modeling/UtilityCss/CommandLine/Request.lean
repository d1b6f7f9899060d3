import UtilityCss.CommandLine.Parse
import UtilityCss.Config.Load
import UtilityCss.Options

/-!
# Requests

The four things that a line can ask for. A pass takes its options from a configuration; what the line gives
itself comes before the configuration. Texts that are empty say nothing, except for the class prefix, which
an empty text takes away.
-/

namespace UtilityCss.CommandLine

structure Overrides where
  classPrefix : Option String := none
  permissive : Bool := false
  scanPatterns : Option (List String) := none
  includeBase : Option Bool := none
  deriving DecidableEq, Repr

def Overrides.apply (overrides : Overrides) (options : Options) : Options where
  naming := {
    classPrefix := overrides.classPrefix.getD options.naming.classPrefix
    permissive := overrides.permissive || options.naming.permissive }
  scanPatterns := overrides.scanPatterns.getD options.scanPatterns
  includeBase := overrides.includeBase.getD options.includeBase
  baseCss := options.baseCss
  ignoreClasses := options.ignoreClasses
  excludeDirs := options.excludeDirs

structure PassRequest where
  project : String := "."
  config : Option String := none
  overrides : Overrides := {}
  detailed : Bool := false
  deriving DecidableEq, Repr

inductive Request
  | scan (pass : PassRequest)
  | generate (pass : PassRequest) (output : Option String) (watch : Bool)
  /-- A new configuration file. -/
  | init (target : String)
  /-- A check of a configuration. -/
  | validate (config : Option String)
  deriving DecidableEq, Repr

def Request.detailed : Request → Bool
  | scan pass | generate pass .. => pass.detailed
  | init _ | validate _ => false

/-! ### Reading the arguments -/

def splitPatterns (text : String) : List String :=
  (((Text.pieces (· == ',') text.toList).map (Text.strip Text.isBlank)).filter fun piece =>
    !piece.isEmpty).map String.ofList

namespace Arguments

def nonempty? (arguments : Arguments) (name : String) : Option String :=
  (arguments.text? name).filter fun text => !text.isEmpty

/-- The truth of a flag that means yes on its own. -/
def truth? (arguments : Arguments) (name : String) : Option Bool :=
  (arguments.given.lookup name).map fun value => (value.bind CommandLine.truth?).getD true

def overrides (arguments : Arguments) : Overrides where
  classPrefix := arguments.text? "--prefix"
  permissive := arguments.has "--allow-unprefixed"
  scanPatterns := (arguments.nonempty? "--patterns").map splitPatterns
  includeBase := arguments.truth? "--with-base"

def passRequest (arguments : Arguments) : PassRequest where
  project := arguments.plain.getD "."
  config := arguments.nonempty? "--config"
  overrides := arguments.overrides
  detailed := arguments.has "--verbose"

end Arguments

/-! ### Commands -/

def configFlag : Flag := { spellings := ["--config", "-c"] }

def passFlags : List Flag := [
  helpFlag,
  { spellings := ["--patterns"] },
  { spellings := ["--prefix"] },
  { spellings := ["--allow-unprefixed"], kind := .switch },
  configFlag,
  { spellings := ["--verbose", "-v"], kind := .switch }]

def outputFlags : List Flag := [
  { spellings := ["--output", "-o"] },
  { spellings := ["--with-base"], kind := .truth },
  { spellings := ["--watch", "-w"], kind := .switch }]

def scanCommand : Command Request where
  name := "scan"
  flags := passFlags
  request := fun arguments => .scan arguments.passRequest

def generateCommand : Command Request where
  name := "generate"
  flags := passFlags ++ outputFlags
  request := fun arguments =>
    .generate arguments.passRequest (arguments.nonempty? "--output") (arguments.has "--watch")

def initCommand : Command Request where
  name := "init"
  flags := [helpFlag]
  request := fun arguments => .init (arguments.plain.getD Config.fileName)

def validateCommand : Command Request where
  name := "validate"
  flags := [helpFlag, configFlag]
  takesPlain := false
  request := fun arguments => .validate (arguments.nonempty? "--config")

def commands : List (Command Request) :=
  [scanCommand, generateCommand, initCommand, validateCommand]

end UtilityCss.CommandLine
