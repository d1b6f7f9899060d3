import UtilityCss.Yaml.Scalar

/-!
# Nodes

A node is a scalar, a list or a mapping under a tag. What it means, and what is wrong with it, is worked out
once from the nodes that it is made of, so that a node can be referred to from many places. Faults are found
from the outside inwards: those of a collection and of what stands in it directly come before those that
are deeper.
-/

namespace UtilityCss.Yaml

inductive Content (α : Type)
  | text (text : String)
  | items (items : List α)
  | entries (entries : List (α × α))
  deriving Repr

/-- What is wrong at each depth, the outermost first; at one depth the first fault counts. -/
abbrev Faults := List (Option Fault)

inductive Node
  | mk (tag : Tag) (content : Content Node) (text : Except Fault String)
      (merged : Except Fault (List (Node × Node))) (value : Value) (faults : Faults)

namespace Faults

def beside : Faults → Faults → Faults
  | [], other => other
  | faults, [] => faults
  | a :: faults, b :: other => a.or b :: beside faults other

def besideAll (faults : List Faults) : Faults := faults.foldr beside []

def deeper (faults : Faults) : Faults := none :: faults

def first? (faults : Faults) : Option Fault := faults.findSome? id

end Faults

namespace Node

def tag : Node → Tag
  | mk tag .. => tag

def content : Node → Content Node
  | mk _ content .. => content

/-- The text of a scalar. A mapping can stand for the text under its value key. -/
def text : Node → Except Fault String
  | mk _ _ text .. => text

def merged : Node → Except Fault (List (Node × Node))
  | mk _ _ _ merged _ _ => merged

def value : Node → Value
  | mk _ _ _ _ value _ => value

def faults : Node → Faults
  | mk _ _ _ _ _ faults => faults

def textOf : Content Node → Except Fault String
  | .text text => .ok text
  | .items _ => .error .malformed
  | .entries entries =>
    match entries.find? fun entry => entry.1.tag = .value with
    | some entry => entry.2.text
    | none => .error .malformed

def added (node : Node) : Except Fault (List (Node × Node)) :=
  match node.content with
  | .text _ => .error .malformed
  | .entries _ => node.merged
  | .items nodes => do
    let all ← nodes.mapM fun node =>
      match node.content with
      | .entries _ => node.merged
      | _ => .error .malformed
    return all.reverse.flatten

/-- What is merged comes first, so that the entries of the mapping itself count more. -/
def mergedOf : Content Node → Except Fault (List (Node × Node))
  | .entries entries => do
    let all ← (entries.filter fun entry => entry.1.tag = .merge).mapM fun entry => entry.2.added
    return all.flatten ++ entries.filter fun entry => entry.1.tag ≠ .merge
  | _ => .error .malformed

/-! ### Meanings -/

structure Meaning where
  value : Value := .null
  faults : Faults := []

def Meaning.malformed : Meaning := { faults := [some .malformed] }

def Meaning.misshapen : Meaning :=
  { value := .list [], faults := Faults.deeper [some .malformed] }

def scalarMeaning (tag : Tag) (content : Content Node) : Meaning :=
  let result : Except Fault Scalar := do
    let text ← textOf content
    match tag, content with
    | .timestamp, .entries _ => throw .mistyped
    | _, _ => Scalar.ofTagged text tag
  match result with
  | .ok scalar => { value := .scalar scalar }
  | .error fault => { faults := [some fault] }

def keyOf (node : Node) : Except Fault Scalar :=
  if node.tag = .value then node.text.map .text
  else match node.faults.head?.join, node.value with
    | some fault, _ => .error fault
    | none, .scalar key => .ok key
    | none, _ => .error .malformed

def entryFaults (entry : Node × Node) : Faults :=
  match entry.1.keyOf with
  | .ok _ => entry.2.faults
  | .error fault => [some fault]

def define (done : Entries) (entry : Node × Node) : Entries :=
  match entry.1.keyOf with
  | .ok key => Entries.define key entry.2.value done
  | .error _ => done

def mappingMeaning (content : Content Node) : Meaning :=
  match mergedOf content with
  | .error fault => { value := .mapping [], faults := Faults.deeper [some fault] }
  | .ok entries => {
      value := .mapping (entries.foldl define [])
      faults := Faults.deeper (Faults.besideAll (entries.map entryFaults)) }

def listMeaning : Content Node → Meaning
  | .items nodes => {
      value := .list (nodes.map value)
      faults := Faults.deeper (Faults.besideAll (nodes.map faults)) }
  | _ => .misshapen

def setMeaning (content : Content Node) : Meaning :=
  let meaning := mappingMeaning content
  { meaning with value := match meaning.value with
      | .mapping entries => .set (entries.map Prod.fst)
      | value => value }

def pairOf? (node : Node) : Option (Node × Node) :=
  match node.content with
  | .entries [entry] => some entry
  | _ => none

def pairValue (pair : Node × Node) : Value := .pair pair.1.value pair.2.value

def pairFaults (node : Node) : Faults :=
  match node.pairOf? with
  | some (first, second) => first.faults.beside second.faults
  | none => [some .malformed]

def pairsMeaning : Content Node → Meaning
  | .items nodes => {
      value := .list ((nodes.filterMap pairOf?).map pairValue)
      faults := Faults.deeper (Faults.besideAll (nodes.map pairFaults)) }
  | _ => .misshapen

def meaning (tag : Tag) (content : Content Node) : Meaning :=
  match tag with
  | .list => listMeaning content
  | .mapping => mappingMeaning content
  | .set => setMeaning content
  | .omap | .pairs => pairsMeaning content
  | .merge | .value | .unknown => .malformed
  | tag => scalarMeaning tag content

def of (tag : Tag) (content : Content Node) : Node :=
  let meaning := meaning tag content
  mk tag content (textOf content) (mergedOf content) meaning.value meaning.faults

def result (node : Node) : Except Fault Value :=
  match node.faults.first? with
  | none => .ok node.value
  | some fault => .error fault

end Node

end UtilityCss.Yaml
