import UtilityCss.Files.Path
import UtilityCss.Text.Newline
import UtilityCss.Text.Utf8

/-!
# File trees

A tree holds files with their bytes and folders, each at a location; the root is a folder. Every operation
is a function of the tree: reading gives bytes or a fault, writing gives the changed tree. Names and paths
have a greatest length, and no zero byte stands in them.
-/

namespace UtilityCss

inductive Node
  | file (bytes : ByteArray)
  | folder

namespace Node

instance : DecidableEq Node
  | file a, file b =>
    match ByteArray.instDecidableEq a b with
    | .isTrue h => .isTrue (congrArg file h)
    | .isFalse h => .isFalse fun same => h (file.inj same)
  | folder, folder => .isTrue rfl
  | file _, folder => .isFalse nofun
  | folder, file _ => .isFalse nofun

def isFile : Node → Bool
  | file _ => true
  | folder => false

def isFolder : Node → Bool
  | file _ => false
  | folder => true

end Node

structure FileTree where
  nodes : List (Location × Node) := []
  deriving DecidableEq

inductive FileFault
  | missing
  | taken
  | notFolder
  | isFolder
  | tooLong
  | zeroByte
  deriving DecidableEq, Repr

structure FileError where
  fault : FileFault
  path : Path
  deriving DecidableEq, Repr

def FileFault.text : FileFault → String
  | missing => "[Errno 2] No such file or directory"
  | taken => "[Errno 17] File exists"
  | notFolder => "[Errno 20] Not a directory"
  | isFolder => "[Errno 21] Is a directory"
  | tooLong => "[Errno 36] File name too long"
  | zeroByte => "embedded null byte"

def FileError.message (error : FileError) : String :=
  if error.fault = .zeroByte then error.fault.text
  else error.fault.text ++ ": " ++ Text.quoted error.path.text

namespace Path

def greatestNameSize : Nat := 255

def greatestSize : Nat := 4095

def isTooLongName (name : String) : Bool := greatestNameSize < name.utf8ByteSize

def hasZeroByte (path : Path) : Bool := path.parts.any fun part => part.toList.contains '\x00'

def fault? (path : Path) : Option FileFault :=
  if path.hasZeroByte then some .zeroByte
  else if greatestSize < path.text.utf8ByteSize then some .tooLong
  else none

end Path

namespace FileTree

def node? (tree : FileTree) (location : Location) : Option Node :=
  if location.isEmpty then some .folder else tree.nodes.lookup location

def isFolder (tree : FileTree) (location : Location) : Bool :=
  (tree.node? location).any Node.isFolder

def putNode (location : Location) (node : Node) : List (Location × Node) → List (Location × Node)
  | [] => [(location, node)]
  | (l, n) :: rest => if l = location then (l, node) :: rest else (l, n) :: putNode location node rest

def put (tree : FileTree) (location : Location) (node : Node) : FileTree :=
  { nodes := putNode location node tree.nodes }

def ancestors (location : Location) : List Location :=
  (List.range (location.length - 1)).map fun n => location.take (n + 1)

def place (tree : FileTree) (location : Location) (node : Node) : FileTree :=
  let tree := (ancestors location).foldl (fun tree folder =>
    if tree.isFolder folder then tree else tree.put folder .folder) tree
  tree.put location node

def changes (tree later : FileTree) : List (Location × Node) :=
  later.nodes.filter fun (location, node) => tree.node? location ≠ some node

def remove (tree : FileTree) (location : Location) : FileTree :=
  { nodes := tree.nodes.filter fun entry => entry.1 ≠ location }

/-- One name further; only a folder can be left by a name, and only there its length matters. -/
def step (tree : FileTree) (here : Location) (part : String) : Except FileFault Location :=
  match tree.node? here with
  | none => .error .missing
  | some (.file _) => .error .notFolder
  | some .folder =>
    if Path.isTooLongName part then .error .tooLong else .ok (Path.follow here part)

def walk (tree : FileTree) (here : Location) (parts : List String) : Except FileFault Location :=
  parts.foldlM tree.step here

def names (tree : FileTree) (folder : Location) : List String :=
  tree.nodes.filterMap fun (location, _) =>
    match location.getLast? with
    | some name => if location.dropLast = folder then some name else none
    | none => none

def below (tree : FileTree) (location : Location) : List (Location × Node) :=
  tree.nodes.filterMap fun (other, node) =>
    (location.isPrefixOf? other).bind fun rest => if rest.isEmpty then none else some (rest, node)

end FileTree

structure Workspace where
  tree : FileTree := {}
  here : Location := []
  home : Location := []
  deriving DecidableEq

namespace Workspace

def start (space : Workspace) (path : Path) : Location := if path.isAbsolute then [] else space.here

def resolve (space : Workspace) (path : Path) : Location := path.resolve space.here

/-- The location of a path for good, whatever stands there. -/
def settle (space : Workspace) (path : Path) : Except FileError Location :=
  if path.hasZeroByte then .error { fault := .zeroByte, path } else .ok (space.resolve path)

def locate (space : Workspace) (path : Path) : Except FileError Location :=
  match path.fault? with
  | some fault => .error { fault, path }
  | none =>
    match space.tree.walk (space.start path) path.parts with
    | .ok location => .ok location
    | .error fault => .error { fault, path }

/-- What stands at a path, if anything does. A path that is too long cannot be asked for. -/
def look (space : Workspace) (path : Path) : Except FileError (Option Node) :=
  match space.locate path with
  | .ok location => .ok (space.tree.node? location)
  | .error error => if error.fault = .tooLong then .error error else .ok none

def holds (space : Workspace) (path : Path) : Except FileError Bool :=
  (space.look path).map Option.isSome

def holdsFolder (space : Workspace) (path : Path) : Except FileError Bool :=
  (space.look path).map fun node => node.any Node.isFolder

def node? (space : Workspace) (path : Path) : Option Node :=
  match space.look path with
  | .ok node => node
  | .error _ => none

def has (space : Workspace) (path : Path) : Bool := (space.node? path).isSome

def isFile (space : Workspace) (path : Path) : Bool := (space.node? path).any Node.isFile

def isFolder (space : Workspace) (path : Path) : Bool := (space.node? path).any Node.isFolder

def read (space : Workspace) (path : Path) : Except FileError ByteArray := do
  let location ← space.locate path
  match space.tree.node? location with
  | some (.file bytes) => .ok bytes
  | some .folder => .error { fault := .isFolder, path }
  | none => .error { fault := .missing, path }

def write (space : Workspace) (path : Path) (bytes : ByteArray) : Except FileError Workspace := do
  let location ← space.locate path
  match space.tree.node? location with
  | some .folder => .error { fault := .isFolder, path }
  | _ => .ok { space with tree := space.tree.put location (.file bytes) }

def makeFolder (space : Workspace) (path : Path) : Except FileError Workspace := do
  let location ← space.locate path
  match space.tree.node? location with
  | some _ => .error { fault := .taken, path }
  | none => .ok { space with tree := space.tree.put location .folder }

def ensureFolder (space : Workspace) (path : Path) : Workspace × Option FileError :=
  match space.makeFolder path with
  | .ok space => (space, none)
  | .error error => (space, if space.isFolder path then none else some error)

/-- Makes the folder that the first `depth` names of a path lead to, and the missing ones before it. What was
made before an error stays. -/
def makeFoldersTo (space : Workspace) (path : Path) : Nat → Workspace × Option FileError
  | 0 => space.ensureFolder { path with parts := [] }
  | depth + 1 =>
    let folder := { path with parts := path.parts.take (depth + 1) }
    match space.makeFolder folder with
    | .error { fault := .missing, .. } =>
      match space.makeFoldersTo path depth with
      | (space, some error) => (space, some error)
      | (space, none) => space.ensureFolder folder
    | _ => space.ensureFolder folder

def makeFolders (space : Workspace) (path : Path) : Workspace × Option FileError :=
  space.makeFoldersTo path path.parts.length

def save (space : Workspace) (path : Path) (bytes : ByteArray) : Workspace × Option FileError :=
  match space.makeFolders path.parent with
  | (space, some error) => (space, some error)
  | (space, none) =>
    match space.write path bytes with
    | .ok space => (space, none)
    | .error error => (space, some error)

def readText (space : Workspace) (path : Path) :
    Except FileError (Except Text.Utf8.Fault String) := do
  let bytes ← space.read path
  .ok ((Text.Utf8.decode bytes).map Text.unifyNewlines)

def readLenient (space : Workspace) (path : Path) : Except FileError String := do
  let bytes ← space.read path
  .ok (Text.unifyNewlines (Text.Utf8.decodeLenient bytes))

end Workspace

end UtilityCss
