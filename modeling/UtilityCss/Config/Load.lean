import UtilityCss.Config.Merge
import UtilityCss.Config.Opened
import UtilityCss.Session

/-!
# Loading a configuration

A configuration can build on others, named by path or preset. They are merged in the order of the
references, and the configuration itself on top of them. A file that is open already on the way to a
reference counts as empty there, so that loading ends: every step down opens one more of the files that
exist.
-/

namespace UtilityCss.Config

/-- A configuration with everything that it builds on, and what there was to note on the way. -/
structure Loaded where
  notes : List String := []
  result : Except Fault Entries := .ok []

namespace Loaded

def withNotes (notes : List String) (loaded : Loaded) : Loaded :=
  { loaded with notes := notes ++ loaded.notes }

def andThen (loaded : Loaded) (next : Entries → Loaded) : Loaded :=
  match loaded.result with
  | .ok entries => (next entries).withNotes loaded.notes
  | .error _ => loaded

def of (result : Except Fault Entries) : Loaded := { result }

end Loaded

/-- A configuration on top of what its references lead to. One of them that cannot be written is noticed when
those before it are loaded. -/
def assembled (config parents : Entries) : Except Fault Entries :=
  if isWritten config then .ok (Entries.mergeOnto parents (Entries.remove "extends" config))
  else .error .unwritable

mutual

/-- A configuration file on top of what it builds on, when the files at `seen` are open. -/
def loadFile (reader : Yaml.Reader) (space : Workspace) (seen : List Location) (path : Path) : Loaded :=
  if hs : space.resolve path ∈ seen then { notes := [circularNote path] }
  else match hr : readFile reader space path with
    | .error fault => .of (.error fault)
    | .ok config =>
      match references config with
      | .error fault => .of (.error fault)
      | .ok references =>
        have := remaining_lt_of_readFile hr hs
        (loadAll reader space (space.resolve path :: seen) path.parent [] references).andThen fun parents =>
          .of (assembled config parents)
termination_by (remaining space seen, 0)

def loadAll (reader : Yaml.Reader) (space : Workspace) (seen : List Location) (folder : Path)
    (merged : Entries) : List String → Loaded
  | [] => .of (.ok merged)
  | reference :: rest =>
    (loadOne reader space seen folder reference).andThen fun entries =>
      loadAll reader space seen folder (Entries.mergeOnto merged entries) rest
termination_by references => (remaining space seen, 2 * references.length)

def loadOne (reader : Yaml.Reader) (space : Workspace) (seen : List Location) (folder : Path)
    (reference : String) : Loaded :=
  if isPresetName reference then
    match preset? reference with
    | some entries => .of (.ok entries)
    | none => { notes := [unknownNote reference] }
  else match space.look (target folder reference) with
    | .error error => .of (.error (.file error))
    | .ok none => { notes := [missingNote (target folder reference)] }
    | .ok (some _) => loadFile reader space seen (target folder reference)
termination_by (remaining space seen, 1)

end

def maxSize : Nat := 1000000

def size (space : Workspace) (path : Path) : Nat :=
  match space.read path with
  | .ok bytes => bytes.size
  | .error _ => 0

def loadAt (reader : Yaml.Reader) (space : Workspace) (path : Path) : Loaded :=
  match space.look path with
  | .error error => .of (.error (.file error))
  | .ok none => .of (.error (.missing path))
  | .ok (some _) =>
    if maxSize < size space path then .of (.error (.tooLarge path)) else loadFile reader space [] path

def load (path : Path) : Task Fault Entries := do
  let loaded ← Task.ask fun session => loadAt session.reader session.space path
  Task.warnAll loaded.notes
  match loaded.result with
  | .ok entries => return entries
  | .error fault => throw fault

/-! ### Where configurations are -/

def fileName : String := "vibecss.yaml"

def candidates (space : Workspace) : List Path := [
  Path.ofText fileName,
  (Path.ofText "config").child fileName,
  ((Path.ofLocation space.home).join (Path.ofText ".config/vibecss")).child fileName]

def find? (space : Workspace) : Option Path := (candidates space).find? space.has

end UtilityCss.Config
