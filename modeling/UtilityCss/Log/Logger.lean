import UtilityCss.Files.Tree
import UtilityCss.Log.Record

/-!
# The logger

A logger that has been configured writes every record at or above its level once to the terminal and, if it
was given a log file, once as JSON to the end of that file. Configuring it again changes nothing unless it
is forced; then the earlier handlers are dropped.
-/

namespace UtilityCss.Log

abbrev Environment := List (String × String)

def Environment.level : String := "VIBECSS_LOG_LEVEL"
def Environment.format : String := "VIBECSS_LOG_FORMAT"
def Environment.file : String := "VIBECSS_LOG_FILE"

inductive Handler
  | terminal (format : Format)
  /-- An absolute path without double dots. -/
  | file (path : Path)
  deriving DecidableEq, Repr

def Handler.format : Handler → Format
  | terminal format => format
  | file _ => .json

structure Logger where
  /-- Zero leaves the choice to the level for warnings. -/
  level : Int := 0
  handlers : List Handler := []
  configured : Bool := false
  deriving DecidableEq, Repr

namespace Logger

def threshold (logger : Logger) : Int := if logger.level = 0 then warning else logger.level

/-- Only levels above zero are written at all. -/
def writes (logger : Logger) (record : Record) : Bool :=
  decide (0 < record.level) && decide (logger.threshold ≤ record.level)

def setLevel (logger : Logger) (level : Int) : Logger := { logger with level }

def chosen (given : Option String) (environment : Environment) (name fallback : String) : String :=
  match given with
  | some text => if text.isEmpty then (environment.lookup name).getD fallback else text
  | none => (environment.lookup name).getD fallback

def fileHandlers (environment : Environment) (space : Workspace) : List Handler :=
  match environment.lookup Environment.file with
  | none | some "" => []
  | some name => [.file ((Path.ofText name).absoluteAt space.here)]

def fresh (level format : Option String) (environment : Environment) (space : Workspace) :
    Logger where
  level := levelOf (chosen level environment Environment.level "INFO")
  handlers :=
    .terminal (Format.ofName (chosen format environment Environment.format "text")) ::
      fileHandlers environment space
  configured := true

end Logger

/-- A log file exists as soon as a logger writes to it. -/
def openFile (space : Workspace) : Handler → Except FileError Workspace
  | .terminal _ => .ok space
  | .file path =>
    match space.read path with
    | .ok _ => .ok space
    | .error _ => space.write path ByteArray.empty

def openFiles (space : Workspace) : List Handler → List Handler × Workspace × Option FileError
  | [] => ([], space, none)
  | handler :: rest =>
    match openFile space handler with
    | .error error => ([], space, some error)
    | .ok space =>
      let (ready, space, error) := openFiles space rest
      (handler :: ready, space, error)

/-- Configures a logger unless it is configured already; `force` configures it in any case. What was done before
an error stays. -/
def Logger.configure (logger : Logger) (level format : Option String) (force : Bool)
    (environment : Environment) (space : Workspace) : Logger × Workspace × Option FileError :=
  if logger.configured && !force then (logger, space, none)
  else
    let next := Logger.fresh level format environment space
    let (handlers, space, error) := openFiles space next.handlers
    ({ next with handlers }, space, error)

def appendLine (space : Workspace) (path : Path) (line : Option String) : Workspace :=
  match space.tree.node? path.parts with
  | some (.file bytes) =>
    { space with tree := space.tree.put path.parts (.file (bytes ++ (line.elim "" (· ++ "\n")).toUTF8)) }
  | _ => space

end UtilityCss.Log
