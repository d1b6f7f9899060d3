import UtilityCss.Options
import UtilityCss.Pass.Failure
import UtilityCss.Scan.Content
import UtilityCss.Session
import UtilityCss.Stylesheet

/-!
# Scanning a project

Every file below the root that fits a pattern is read once, unless a folder between the root and the file
is excluded. The classes of a project are those of its files.
-/

namespace UtilityCss

/-- Whether a file is left out for the folders that lead to it. -/
def isExcluded (exclusions folders : List String) : Bool := folders.any exclusions.contains

def Options.scanner (options : Options) : Scanner :=
  { naming := options.naming, ignored := options.ignoreClasses }

namespace Pass

def insertInOrder (parts : List String) : List (List String) → List (List String)
  | [] => [parts]
  | first :: rest =>
    if first < parts then first :: insertInOrder parts rest else parts :: first :: rest

def inOrder (found : List (List String)) : List (List String) := found.foldr insertInOrder []

def selectedBy (space : Workspace) (root : Path) (pattern : String) :
    Except Failure (List (List String)) :=
  match Glob.partsOf pattern with
  | .error fault => .error (.pattern fault)
  | .ok parts => (Glob.search space root parts).mapError .file

def isScanned (space : Workspace) (root : Path) (exclusions parts : List String) : Bool :=
  space.isFile (root.below parts) && !isExcluded exclusions parts.dropLast

/-- The files that a pattern selects, apart from the excluded ones. Whether a path leads to a file is asked in
the order of the paths. -/
def scannedBy (space : Workspace) (root : Path) (exclusions : List String) (pattern : String) :
    Except Failure (List (List String)) := do
  let found ← selectedBy space root pattern
  match (inOrder found).mapM fun parts => space.look (root.below parts) with
  | .error error => .error (.file error)
  | .ok _ => .ok (found.filter (isScanned space root exclusions))

def sources (space : Workspace) (root : Path) (options : Options) :
    Except Failure (List Path) :=
  match space.look root with
  | .error error => .error (.file error)
  | .ok none => .error (.missingRoot root)
  | .ok (some (.file _)) => .error (.rootIsFile root)
  | .ok (some .folder) =>
    (options.patterns.mapM (scannedBy space root options.excludeDirs)).map fun found =>
      found.flatten.eraseDups.map root.below

def fileClasses (space : Workspace) (scanner : Scanner) (path : Path) :
    Except FileError (List String) :=
  (space.readLenient path).map fun text =>
    scanner.scan text (ContentKind.ofExtension path.extension)

def filesClasses (space : Workspace) (scanner : Scanner) (paths : List Path) :
    Except FileError (List String) :=
  (paths.mapM (fileClasses space scanner)).map fun classes => Text.orderedSet classes.flatten

def projectClasses (space : Workspace) (root : Path) (options : Options) :
    Except Failure (List String × Nat) := do
  let paths ← sources space root options
  match filesClasses space options.scanner paths with
  | .ok classes => .ok (classes, paths.length)
  | .error error => .error (.file error)

def scanNote (root : Path) (files classes : Nat) : String :=
  s!"Scanned {files} file(s) under {root.text}, {classes} class(es)"

def scan (root : Path) (options : Options) : Task Failure (List String) := do
  let (classes, files) ← Task.look fun space => projectClasses space root options
  Task.note (scanNote root files classes.length)
  return classes

def scanRecord (root : Path) (classes : Classification) (elapsed : Binary64) : Log.Record where
  level := Log.debug
  message := "scan_complete"
  data := .mapping [
    (.text "path", .text root.text),
    (.text "total", .ofNat classes.total),
    (.text "recognized", .ofNat classes.recognized.length),
    (.text "unknown", .ofNat classes.unknown.length),
    (.text "duration_ms", .real elapsed)]

def classify (root : Path) (options : Options) : Task Failure Classification := do
  let classes ← scan root options
  let classification := Classification.ofTokens options.naming classes
  Task.emit (scanRecord root classification (← Task.ask Session.elapsed))
  return classification

end Pass

end UtilityCss
