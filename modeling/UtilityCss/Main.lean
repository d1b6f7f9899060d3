import Std.Time.DateTime.Timestamp
import UtilityCss.CommandLine.Run
import UtilityCss.Log.Moment

/-!
# The program

Everything that a line may look at is read into a workspace before the line runs, and what the line changed
there is written afterwards. A watcher looks at the files again and again until the program is interrupted.
-/

namespace UtilityCss.Program

/-- Adds what stands at one location; what cannot be read is left out. -/
def loadNode (tree : FileTree) (location : Location) : IO FileTree := do
  let path := (← IO.currentDir) / (Path.ofLocation location).text
  if ← path.isDir then return tree.place location .folder
  else
    match ← (IO.FS.readBinFile path).toBaseIO with
    | .ok bytes => return tree.place location (.file bytes)
    | .error _ => return tree

/-- Adds what stands at a location, and all that it holds if it is a folder. -/
partial def load (tree : FileTree) (location : Location) : IO FileTree := do
  let tree ← loadNode tree location
  let path := (← IO.currentDir) / (Path.ofLocation location).text
  if ← path.isDir then
    (← path.readDir).foldlM (fun tree entry => load tree (location ++ [entry.fileName])) tree
  else return tree

/-- Adds what stands at a location, and what stands on the way there. -/
def loadPath (tree : FileTree) (location : Location) : IO FileTree := do
  load (← (FileTree.ancestors location).foldlM loadNode tree) location

/-- Adds the files that configurations mention, and those that these mention in turn. -/
partial def loadMentioned (space : Workspace) (seen : List Location) : List Path → IO Workspace
  | [] => return space
  | path :: rest => do
    let location := space.resolve path
    if seen.contains location then loadMentioned space seen rest
    else
      let tree ← loadPath space.tree location
      let space := { space with tree }
      loadMentioned space (location :: seen) (rest ++ Config.mentioned Value.ofYaml space path)

def setting (name : String) : IO (Option (String × String)) := do
  return (← IO.getEnv name).map fun value => (name, value)

def environment : IO Log.Environment := do
  let names := [Log.Environment.level, Log.Environment.format, Log.Environment.file]
  return (← names.mapM setting).filterMap id

def workspace (line : List String) (environment : Log.Environment) : IO Workspace := do
  let here := (Path.ofText (← IO.currentDir).toString).parts
  let home := (Path.ofText ((← IO.getEnv "HOME").getD "/")).parts
  let empty : Workspace := { here, home }
  let given := (line ++ (environment.lookup Log.Environment.file).toList).map Path.ofText
  let tree ← (here :: given.map empty.resolve).foldlM loadPath empty.tree
  let space := { empty with tree := tree.place here .folder }
  loadMentioned space [] (Config.candidates space ++ given)

def now : IO String := do
  let moment := (← Std.Time.Timestamp.now).toMillisecondsSinceUnixEpoch
  return Log.momentText moment.val.toNat

/-- Writes what a session printed and changed since an earlier state of it. -/
def settle (before after : Session) : IO Unit := do
  for (location, node) in before.space.tree.changes after.space.tree do
    let path := (Path.ofLocation location).text
    match node with
    | .folder => IO.FS.createDirAll path
    | .file bytes => IO.FS.writeBinFile path bytes
  for text in after.printed.drop before.printed.length do
    IO.println text
  (← IO.getStdout).flush

/-- Runs a task, and keeps what it did whether it failed or not. -/
def perform {ε α : Type} (task : Task ε α) (session : Session) : IO (Except ε α × Session) := do
  match task session with
  | .ok value after =>
    settle session after
    return (.ok value, after)
  | .error error after =>
    settle session after
    return (.error error, after)

def pause : UInt32 := 200

def secondsSince (beginning : Nat) : IO Binary64 := do
  return .ofRatio false ((← IO.monoMsNow) - beginning) 1000

/-- Lets a watcher react to what happens to the files. -/
partial def follow (line : List String) (beginning : Nat) (watcher : Watcher Binary64)
    (session : Session) : IO UInt32 := do
  IO.sleep pause
  let space ← workspace line session.environment
  let moment ← secondsSince beginning
  let events := (Event.between session.space.tree space.tree).map fun event => (moment, event)
  let session := { session with space, time := ← now }
  match ← perform (watcher.reactAll events) session with
  | (.ok watcher, session) => follow line beginning watcher session
  | (.error fault, _) =>
    IO.eprintln fault.message
    return 1

def run (line : List String) : IO UInt32 := do
  let beginning ← IO.monoMsNow
  let environment ← environment
  let session : Session := {
    space := ← workspace line environment
    environment
    time := ← now
    reader := Value.ofYaml }
  match ← perform (CommandLine.start line) session with
  | (.ok (.done code), _) =>
    if code = 2 then IO.eprintln ("\n".intercalate CommandLine.Help.overview)
    return code.toUInt32
  | (.ok (.watching watcher), session) => follow line beginning watcher session
  | (.error crash, _) =>
    IO.eprintln crash.message
    return 1

end UtilityCss.Program

def main (line : List String) : IO UInt32 := UtilityCss.Program.run line
