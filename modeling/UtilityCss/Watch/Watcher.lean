import UtilityCss.Pass.Generate
import UtilityCss.Watch.Event

/-!
# Watching a project

A watcher regenerates a style sheet when a scanned file changes. A trigger is discarded while a pass runs
and, unless it is forced, for as long as the debounce lasts after the start of the pass before. The style
sheet itself triggers nothing. Times may be of any type that can be subtracted and compared.
-/

namespace UtilityCss

structure Watcher (Time : Type) where
  root : Location
  output : Location
  options : Options := {}
  debounce : Time
  /-- A pass is under way. -/
  running : Bool := false
  /-- When the last pass started, whatever came of it. -/
  lastStart : Option Time := none
  lastReport : Option Report := none

namespace Watcher

variable {Time : Type}

/-- A watcher for a root and an output, which stay where they are from now on. -/
def ofPaths (space : Workspace) (root output : Path) (options : Options) (debounce : Time) :
    Except FileError (Watcher Time) := do
  let root ← space.settle root
  let output ← space.settle output
  .ok { root, output, options, debounce }

def handles (watcher : Watcher Time) (location : Location) : Except Glob.Fault Bool :=
  if location = watcher.output then .ok false
  else
    let path := Path.ofLocation location
    if isExcluded watcher.options.excludeDirs (path.foldersFrom (Path.ofLocation watcher.root)) then
      .ok false
    else Glob.matchesAny path watcher.options.scanPatterns

def handlesPath (watcher : Watcher Time) (space : Workspace) (path : String) :
    Except Failure Bool :=
  match space.settle (Path.ofText path) with
  | .error error => .error (.file error)
  | .ok location => (watcher.handles location).mapError .pattern

def handlesOne (watcher : Watcher Time) (space : Workspace) : List String → Except Failure Bool
  | [] => .ok false
  | path :: paths => do
    if ← watcher.handlesPath space path then .ok true else watcher.handlesOne space paths

def reactsTo (watcher : Watcher Time) (space : Workspace) (event : Event) :
    Except Failure Bool :=
  if event.matters then watcher.handlesOne space event.paths else .ok false

variable [Sub Time] [LT Time] [DecidableLT Time]

def isDue (watcher : Watcher Time) (now : Time) : Bool :=
  match watcher.lastStart with
  | none => true
  | some start => !decide (now - start < watcher.debounce)

def mayStart (watcher : Watcher Time) (force : Bool) (now : Time) : Bool :=
  !watcher.running && (force || watcher.isDue now)

end Watcher

end UtilityCss
