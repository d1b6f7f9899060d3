import UtilityCss.Files.Tree

/-!
# Events

What an observer of a file tree tells about one file: that it was created, modified, moved or deleted, or
something that leaves it as it is.
-/

namespace UtilityCss

inductive Change
  | created
  | modified
  | moved
  | deleted
  deriving DecidableEq, Repr

def Change.ofName? : String → Option Change
  | "created" => some created
  | "modified" => some modified
  | "moved" => some moved
  | "deleted" => some deleted
  | _ => none

structure Event where
  /-- None when the file was only opened or closed. -/
  change : Option Change
  source : String
  /-- Where a moved file is now. -/
  target : String := ""
  onFolder : Bool := false
  deriving DecidableEq, Repr

namespace Event

/-- Whether the classes in use can be others after the event. -/
def matters (event : Event) : Bool := !event.onFolder && event.change.isSome

def ofNode (before : FileTree) (location : Location) (node : Node) : Event where
  change := some (if (before.node? location).isSome then .modified else .created)
  source := (Path.ofLocation location).text
  onFolder := node.isFolder

def ofDeletion (location : Location) (node : Node) : Event where
  change := some .deleted
  source := (Path.ofLocation location).text
  onFolder := node.isFolder

def between (before after : FileTree) : List Event :=
  (before.changes after).map (fun (location, node) => ofNode before location node) ++
  (before.nodes.filter fun (location, _) => (after.node? location).isNone).map
    fun (location, node) => ofDeletion location node

def paths (event : Event) : List String :=
  event.source :: if event.target.isEmpty then [] else [event.target]

end Event

end UtilityCss
