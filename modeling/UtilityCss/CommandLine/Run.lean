import UtilityCss.CommandLine.Help
import UtilityCss.CommandLine.Request
import UtilityCss.CommandLine.Summary
import UtilityCss.Config.Check
import UtilityCss.Config.Settings
import UtilityCss.Config.Template
import UtilityCss.Watch.Run

/-!
# Runs of a line

A line ends with an exit code: zero when all went well, one when it could not do what it was asked for, and
two when it asked for nothing that there is. A line that watches a project first waits for events. What
neither the configuration nor the project explains to the user ends the run without a code.
-/

namespace UtilityCss.CommandLine

inductive Crash
  | config (fault : Config.Fault)
  | pass (failure : Failure)
  | file (error : FileError)
  deriving DecidableEq, Repr

def Crash.message : Crash → String
  | config fault => fault.message
  | pass failure => failure.message
  | file error => error.message

def mistyped : Crash := .config .mistyped

/-- A value that is missing only when something in the configuration is of the wrong kind. -/
def needed {α : Type} : Option α → Task Crash α
  | some value => return value
  | none => throw mistyped

/-! ### Configurations -/

def isExplained : Config.Fault → Bool
  | .file error => error.fault = .missing || error.fault = .zeroByte
  | .unreadable fault => fault.isOfValue
  | .mistyped | .tooGreat => false
  | _ => true

def configPath? (named : Option String) (space : Workspace) : Option Path :=
  (named.map Path.ofText).or (Config.find? space)

def readConfig (path : Path) : Task Crash (Option Entries) := do
  match ← Task.attempt (Config.load path) with
  | .ok config => return some config
  | .error fault =>
    if isExplained fault then
      Task.say (configLine fault.message)
      return none
    else throw (.config fault)

def checked (config : Entries) : Task Crash (List String) :=
  match Config.complaints config with
  | .ok complaints => return complaints
  | .error fault => throw (.config fault)

def invalidLines (path : Path) (complaints : List String) : List String :=
  configLine ("Invalid config " ++ path.text ++ ":") :: complaints.map item

def usableConfig (path : Path) : Task Crash (Option Entries) := do
  match ← readConfig path with
  | none => return none
  | some config =>
    match ← checked config with
    | [] =>
      Task.note ("Using config " ++ path.text)
      return some config
    | complaints =>
      Task.sayAll (invalidLines path complaints)
      return none

def passConfig (named : Option String) : Task Crash (Option Entries) := do
  match ← Task.ask fun session => configPath? named session.space with
  | none => return some []
  | some path => usableConfig path

/-! ### Passes -/

structure Plan where
  project : Path
  config : Entries
  options : Options

def plan (request : PassRequest) : Task Crash (Option Plan) := do
  match ← passConfig request.config with
  | none => return none
  | some config =>
    let options ← needed ((Settings.ofConfig? config).bind Settings.options?)
    let project := Path.ofText request.project
    if ← Task.explain Crash.file (Task.look fun space => space.holdsFolder project) then
      return some { project, config, options := request.overrides.apply options }
    else
      Task.say (errorLine (Failure.missingRoot project).message)
      return none

def runScan (plan : Plan) : Task Crash Unit := do
  Task.say (scanTitle plan.project)
  let classes ← Task.explain Crash.pass (Pass.classify plan.project plan.options)
  Task.sayAll (scanSummary classes)

/-- Where the style sheet goes: to a path as it is given, or to the configured one below the project. -/
def Plan.output? (plan : Plan) : Option String → Option Path
  | some given => some (Path.ofText given)
  | none =>
    (((Config.withDefaults plan.config).get? "output").bind Value.text?).map fun text =>
      plan.project.join (Path.ofText text)

def codeOf (succeeded : Bool) : Nat := if succeeded then 0 else 1

def runGenerate (plan : Plan) (output : Path) : Task Crash Nat := do
  Task.say (generateTitle plan.project)
  let report ← Task.explain Crash.pass (Pass.generate plan.project output plan.options)
  Task.sayAll (reportSummary report)
  return codeOf report.succeeded

/-! ### Configuration files -/

def runInit (target : Path) : Task Crash Nat := do
  if ← Task.explain Crash.file (Task.look fun space => space.holds target) then
    Task.say (existsLine target)
    return 1
  else
    Task.explain Crash.file (Task.change fun space =>
      match space.write target Config.template.toUTF8 with
      | .ok space => (space, none)
      | .error error => (space, some error))
    Task.sayAll (initSummary target)
    return 0

def nothingToValidate : List String :=
  [Colour.red.paint ("ERROR: No " ++ Config.fileName ++ " found"), "Run: vibecss init"]

def validateConfig (path : Path) : Task Crash Nat := do
  match ← readConfig path with
  | none => return 1
  | some config =>
    match ← checked config with
    | [] =>
      Task.say (path.text ++ " is valid")
      return 0
    | complaints =>
      Task.sayAll ("Validation errors:" :: complaints.map item)
      return 1

def runValidate (named : Option String) : Task Crash Nat := do
  match ← Task.ask fun session => configPath? named session.space with
  | some path => validateConfig path
  | none =>
    Task.sayAll nothingToValidate
    return 1

/-! ### The whole line -/

inductive Progress
  | done (code : Nat)
  | watching (watcher : Watcher Binary64)

def startWatch (plan : Plan) (output : Path) : Task Crash Progress := do
  let debounce ← Task.explain Crash.config (Task.look fun _ => Config.debounce plan.config)
  let watcher ← Task.explain Crash.pass
    (Watch.start plan.project output plan.options debounce Binary64.zero)
  return (watcher.map Progress.watching).getD (.done 1)

def perform : Request → Task Crash Progress
  | .scan pass => do
    match ← plan pass with
    | none => return .done 1
    | some plan =>
      runScan plan
      return .done 0
  | .generate pass given watch => do
    match ← plan pass with
    | none => return .done 1
    | some plan =>
      let output ← needed (plan.output? given)
      if watch then startWatch plan output else .done <$> runGenerate plan output
  | .init target => .done <$> runInit (Path.ofText target)
  | .validate config => .done <$> runValidate config

def versionLine : String := "vibecss 1.0.0"

def stopped : Stop → Task Crash Progress
  | .help command => do
    Task.print (Help.lines command)
    return .done 0
  | .version => do
    Task.print [versionLine]
    return .done 0
  | .unusable => return .done 2

def start (line : List String) : Task Crash Progress := do
  Task.explain Crash.file Task.configure
  match parse commands line with
  | .error stop => stopped stop
  | .ok request =>
    if request.detailed then Task.setLevel Log.debug
    perform request

def run (line : List String) (events : List (Binary64 × Event)) : Task Crash Nat := do
  match ← start line with
  | .done code => return code
  | .watching watcher =>
    Task.explain Crash.pass (watcher.reactAll events *> Watch.stop)
    return 0

end UtilityCss.CommandLine
