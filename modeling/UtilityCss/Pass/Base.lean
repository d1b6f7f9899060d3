import UtilityCss.BaseSheet
import UtilityCss.Options
import UtilityCss.Pass.Failure
import UtilityCss.Session

/-!
# The base sheet of a pass

A style sheet begins with the base sheet that the options name; if they name none, with the one that the
project keeps; if it keeps none, with the bundled one, whose properties carry the prefix of the project.
-/

namespace UtilityCss.Pass

def projectBase (root : Path) : Path := root.join (Path.ofText "wwwroot/css/vibe-base.css")

def namedBase? (options : Options) : Option Path :=
  (options.baseCss.filter fun name => !name.isEmpty).map Path.ofText

def keptBase? (space : Workspace) : Option Path → Except FileError (Option Path)
  | none => .ok none
  | some root =>
    (space.look (projectBase root)).map fun node =>
      if node.any Node.isFile then some (projectBase root) else none

def baseFile? (space : Workspace) (root : Option Path) (options : Options) :
    Except FileError (Option Path) :=
  match namedBase? options with
  | some path => .ok (some path)
  | none => keptBase? space root

def readBase (space : Workspace) (path : Path) : Except Failure String :=
  match space.readText path with
  | .error error => .error (.file error)
  | .ok (.error fault) => .error (.encoding fault)
  | .ok (.ok text) => .ok text

def baseText (space : Workspace) (root : Option Path) (options : Options) : Except Failure String :=
  match baseFile? space root options with
  | .error error => .error (.file error)
  | .ok (some path) => readBase space path
  | .ok none => .ok (BaseSheet.render options.naming.variablePrefix)

def baseNotes (space : Workspace) (root : Option Path) (options : Options) : List String :=
  match namedBase? options, keptBase? space root with
  | none, .ok (some path) => ["Using project base stylesheet " ++ path.text]
  | _, _ => []

def loadBase (root : Option Path) (options : Options) : Task Failure String := do
  Task.noteAll (← Task.ask fun session => baseNotes session.space root options)
  Task.look fun space => baseText space root options

end UtilityCss.Pass
