import UtilityCss.Yaml.Node
import UtilityCss.Yaml.Token

/-!
# Configuration texts

`Value.ofYaml` reads YAML: nested lists and mappings by indentation or in brackets, scalars that are plain,
quoted or blocks of lines, comments, tags, directives, anchors and references to them. The text is one document
at most; the value of an empty one is null. Of two equal keys the last one counts.
Sessions read their configurations with it, unless they are given another `Yaml.Reader`.
-/

namespace UtilityCss

namespace Yaml

abbrev Handles := List (String × String)

def commonHandles : Handles := [("!", "!"), ("!!", Tag.commonStart)]

/-- The tokens that are left, and the nodes with anchors that have been read. An anchor in front of a
collection belongs to a node without content as long as the collection is read. -/
structure Feed where
  tokens : List Token
  handles : Handles := commonHandles
  anchors : List (String × Node) := []

namespace Feed

def head? (feed : Feed) : Option Token := feed.tokens.head?

def next (feed : Feed) : Feed := { feed with tokens := feed.tokens.tail }

def stops (feed : Feed) (marks : List Token) : Bool := feed.head?.all marks.contains

def fault (feed : Feed) : Fault :=
  match feed.head? with
  | some (.broken fault) => fault
  | _ => .malformed

def find (feed : Feed) (name : String) : Except Fault Node :=
  match feed.anchors.lookup name with
  | some node => .ok node
  | none => .error .malformed

def remember (feed : Feed) (anchor : Option String) (node : Node) : Feed :=
  match anchor with
  | none => feed
  | some name => { feed with anchors := (name, node) :: feed.anchors }

def announce (feed : Feed) (anchor : Option String) (node : Node) : Except Fault Feed :=
  if anchor.any fun name => (feed.anchors.lookup name).isSome then .error .malformed
  else .ok (feed.remember anchor node)

end Feed

/-! ### Tags and anchors -/

def fullTag? (handles : Handles) (shorthand : Shorthand) : Option String :=
  match shorthand.handle with
  | none => some shorthand.suffix
  | some handle => (handles.lookup handle).map fun start => start ++ shorthand.suffix

structure Properties where
  tag : Option String := none
  anchor : Option String := none
  deriving DecidableEq, Repr

def written : List Token → Option Shorthand × Option String × List Token
  | .tag tag :: .anchor anchor :: rest | .anchor anchor :: .tag tag :: rest =>
    (some tag, some anchor, rest)
  | .tag tag :: rest => (some tag, none, rest)
  | .anchor anchor :: rest => (none, some anchor, rest)
  | rest => (none, none, rest)

def properties (feed : Feed) : Except Fault (Properties × Feed) :=
  let (shorthand, anchor, tokens) := written feed.tokens
  let feed := { feed with tokens }
  match shorthand with
  | none => .ok ({ anchor }, feed)
  | some shorthand =>
    match fullTag? feed.handles shorthand with
    | none => .error .malformed
    | some tag => .ok ({ tag, anchor }, feed)

namespace Properties

def isEmpty (properties : Properties) : Bool := properties == {}

def saysNoTag (properties : Properties) : Bool := properties.tag.all (· == "!")

def tagOr (properties : Properties) (usual : Tag) : Tag :=
  if properties.saysNoTag then usual else (properties.tag.map Tag.ofText).getD usual

def scalar (properties : Properties) (text : String) (plain : Bool) : Node :=
  let usual := if plain || properties.tag.isSome then Tag.ofPlain text else .text
  Node.of (properties.tagOr usual) (.text text)

def list (properties : Properties) (items : List Node) : Node :=
  Node.of (properties.tagOr .list) (.items items)

def mapping (properties : Properties) (entries : List (Node × Node)) : Node :=
  Node.of (properties.tagOr .mapping) (.entries entries)

def opened (properties : Properties) : Option Token → Node
  | some .mappingStart | some .flowMappingStart => properties.mapping []
  | _ => properties.list []

def nothing (properties : Properties) (feed : Feed) : Except Fault (Node × Feed) :=
  if properties.isEmpty then .error feed.fault else .ok (properties.scalar "" true, feed)

end Properties

/-! ### Values -/

def null : Node := Node.of .null (.text "")

def endOfEntry : List Token := [.blockEntry, .blockEnd]

def endOfPart : List Token := [.key, .value, .blockEnd]

def endOfIndentless : List Token := [.blockEntry, .key, .value, .blockEnd]

mutual

/-- A value and what follows it. Lists and mappings by indentation are read where `block` allows them, and a
list that begins at the column of its mapping where `indentless` does. Every step takes a token or goes
into what the last one opened, a few functions deep, so that six times the number of tokens is fuel enough. -/
def value (fuel : Nat) (block indentless : Bool) (feed : Feed) : Except Fault (Node × Feed) :=
  match fuel with
  | 0 => .error .malformed
  | fuel + 1 =>
    match feed.head? with
    | some (.reference name) => do return (← feed.find name, feed.next)
    | _ => do
      let (properties, feed) ← properties feed
      let feed ← feed.announce properties.anchor (properties.opened feed.head?)
      let (node, feed) ← content fuel block indentless properties feed
      return (node, feed.remember properties.anchor node)

def content (fuel : Nat) (block indentless : Bool) (properties : Properties) (feed : Feed) :
    Except Fault (Node × Feed) :=
  match fuel with
  | 0 => .error .malformed
  | fuel + 1 =>
    match feed.head? with
    | some (.scalar text plain) => .ok (properties.scalar text plain, feed.next)
    | some .flowSequenceStart => do
      let (items, feed) ← flowItems fuel true [] feed.next
      return (properties.list items, feed)
    | some .flowMappingStart => do
      let (entries, feed) ← flowEntries fuel true [] feed.next
      return (properties.mapping entries, feed)
    | some .sequenceStart =>
      if block then do
        let (items, feed) ← items fuel [] feed.next
        return (properties.list items, feed)
      else properties.nothing feed
    | some .mappingStart =>
      if block then do
        let (entries, feed) ← entries fuel [] feed.next
        return (properties.mapping entries, feed)
      else properties.nothing feed
    | some .blockEntry =>
      if indentless then do
        let (items, feed) ← indentlessItems fuel [] feed
        return (properties.list items, feed)
      else properties.nothing feed
    | _ => properties.nothing feed

def optional (fuel : Nat) (marks : List Token) (block indentless : Bool) (feed : Feed) :
    Except Fault (Node × Feed) :=
  match fuel with
  | 0 => .error .malformed
  | fuel + 1 =>
    if feed.stops marks then .ok (null, feed) else value fuel block indentless feed

def items (fuel : Nat) (done : List Node) (feed : Feed) : Except Fault (List Node × Feed) :=
  match fuel with
  | 0 => .error .malformed
  | fuel + 1 =>
    match feed.head? with
    | some .blockEntry =>
      match optional fuel endOfEntry true false feed.next with
      | .error fault => .error fault
      | .ok (node, feed) => items fuel (node :: done) feed
    | some .blockEnd => .ok (done.reverse, feed.next)
    | _ => .error feed.fault

def indentlessItems (fuel : Nat) (done : List Node) (feed : Feed) :
    Except Fault (List Node × Feed) :=
  match fuel with
  | 0 => .error .malformed
  | fuel + 1 =>
    match feed.head? with
    | some .blockEntry =>
      match optional fuel endOfIndentless true false feed.next with
      | .error fault => .error fault
      | .ok (node, feed) => indentlessItems fuel (node :: done) feed
    | _ => .ok (done.reverse, feed)

def keyPart (fuel : Nat) (marks : List Token) (block : Bool) (feed : Feed) :
    Except Fault (Node × Feed) :=
  match fuel with
  | 0 => .error .malformed
  | fuel + 1 =>
    if feed.head? = some .key then optional fuel marks block block feed.next
    else .error feed.fault

def valuePart (fuel : Nat) (marks : List Token) (block : Bool) (feed : Feed) :
    Except Fault (Node × Feed) :=
  match fuel with
  | 0 => .error .malformed
  | fuel + 1 =>
    match feed.head? with
    | some .value => optional fuel marks block block feed.next
    | _ => .ok (null, feed)

def pair (fuel : Nat) (keyMarks marks : List Token) (block : Bool) (feed : Feed) :
    Except Fault ((Node × Node) × Feed) :=
  match fuel with
  | 0 => .error .malformed
  | fuel + 1 => do
    let (key, feed) ← keyPart fuel keyMarks block feed
    let (value, feed) ← valuePart fuel marks block feed
    return ((key, value), feed)

def entries (fuel : Nat) (done : List (Node × Node)) (feed : Feed) :
    Except Fault (List (Node × Node) × Feed) :=
  match fuel with
  | 0 => .error .malformed
  | fuel + 1 =>
    match feed.head? with
    | some .blockEnd => .ok (done.reverse, feed.next)
    | _ =>
      match pair fuel endOfPart endOfPart true feed with
      | .error fault => .error fault
      | .ok (entry, feed) => entries fuel (entry :: done) feed

def flowItems (fuel : Nat) (first : Bool) (done : List Node) (feed : Feed) :
    Except Fault (List Node × Feed) :=
  match fuel with
  | 0 => .error .malformed
  | fuel + 1 =>
    match feed.head?, first with
    | some .flowSequenceEnd, _ => .ok (done.reverse, feed.next)
    | some .flowEntry, false =>
      if feed.next.head? = some .flowSequenceEnd then .ok (done.reverse, feed.next.next)
      else match flowItem fuel feed.next with
        | .error fault => .error fault
        | .ok (node, feed) => flowItems fuel false (node :: done) feed
    | some _, true =>
      match flowItem fuel feed with
      | .error fault => .error fault
      | .ok (node, feed) => flowItems fuel false (node :: done) feed
    | _, _ => .error feed.fault

def flowItem (fuel : Nat) (feed : Feed) : Except Fault (Node × Feed) :=
  match fuel with
  | 0 => .error .malformed
  | fuel + 1 =>
    if feed.head? = some .key then do
      let (entry, feed) ←
        pair fuel [.value, .flowEntry, .flowSequenceEnd] [.flowEntry, .flowSequenceEnd] false feed
      return (Node.of .mapping (.entries [entry]), feed)
    else value fuel false false feed

def flowEntries (fuel : Nat) (first : Bool) (done : List (Node × Node)) (feed : Feed) :
    Except Fault (List (Node × Node) × Feed) :=
  match fuel with
  | 0 => .error .malformed
  | fuel + 1 =>
    match feed.head?, first with
    | some .flowMappingEnd, _ => .ok (done.reverse, feed.next)
    | some .flowEntry, false =>
      if feed.next.head? = some .flowMappingEnd then .ok (done.reverse, feed.next.next)
      else match flowPair fuel feed.next with
        | .error fault => .error fault
        | .ok (entry, feed) => flowEntries fuel false (entry :: done) feed
    | some _, true =>
      match flowPair fuel feed with
      | .error fault => .error fault
      | .ok (entry, feed) => flowEntries fuel false (entry :: done) feed
    | _, _ => .error feed.fault

def flowPair (fuel : Nat) (feed : Feed) : Except Fault ((Node × Node) × Feed) :=
  match fuel with
  | 0 => .error .malformed
  | fuel + 1 =>
    if feed.head? = some .key then
      pair fuel [.value, .flowEntry, .flowMappingEnd] [.flowEntry, .flowMappingEnd] false feed
    else do
      let (key, feed) ← value fuel false false feed
      return ((key, null), feed)

end

/-! ### The document -/

structure Preamble where
  versioned : Bool := false
  handles : Handles := []

def Preamble.add (preamble : Preamble) : Directive → Except Fault Preamble
  | .version major =>
    if preamble.versioned || major ≠ 1 then .error .malformed
    else .ok { preamble with versioned := true }
  | .handle name start =>
    if (preamble.handles.lookup name).isSome then .error .malformed
    else .ok { preamble with handles := (name, start) :: preamble.handles }
  | .other => .ok preamble

def preamble (done : Preamble) : List Token → Except Fault Feed
  | .directive directive :: rest => do preamble (← done.add directive) rest
  | .documentStart :: rest => .ok { tokens := rest, handles := done.handles ++ commonHandles }
  | tokens => .error ({ tokens : Feed }).fault

def isExplicit : List Token → Bool
  | .directive _ :: _ | .documentStart :: _ => true
  | _ => false

def endOfDocument : List Token := [.documentStart, .documentEnd]

def isVoid (feed : Feed) : Bool :=
  feed.stops endOfDocument || isExplicit feed.tokens

def document (tokens : List Token) : Except Fault (Node × Feed) :=
  let fuel := 6 * tokens.length + 6
  if tokens.isEmpty then .ok (null, { tokens })
  else if isExplicit tokens then do
    let feed ← preamble {} tokens
    if isVoid feed then return (null, feed) else value fuel true false feed
  else value fuel true false { tokens }

def afterDocument (feed : Feed) : Except Fault Unit :=
  match feed.tokens.dropWhile (· == .documentEnd) with
  | [] => .ok ()
  | tokens => .error { feed with tokens }.fault

def greatestDepth : Nat := 488

def Token.descent : Token → Int
  | .sequenceStart | .mappingStart | .flowSequenceStart | .flowMappingStart => 1
  | .blockEnd | .flowSequenceEnd | .flowMappingEnd => -1
  | _ => 0

def levelledFrom (done : List Token) (depth : Int) : List Token → List Token
  | [] => done.reverse
  | token :: rest =>
    let depth := depth + token.descent
    if greatestDepth < depth then (.broken .tooDeep :: done).reverse
    else levelledFrom (token :: done) depth rest

def isAllowed (c : Char) : Bool :=
  c == '\t' || c == '\n' || c == '\r' || (' ' ≤ c && c ≤ '~') || c == '\u0085' ||
    ('\u00a0' ≤ c && c ≠ '\uFFFE' && c ≠ '\uFFFF')

end Yaml

open Yaml in
/-- The value that a text writes. A text that is not whole has to end before more of it is needed. -/
def Value.ofYaml (isWhole : Bool) (text : String) : Except Yaml.Fault Value := do
  let cs := text.toList
  if !cs.all isAllowed then throw .malformed
  let (node, feed) ← document (levelledFrom [] 0 (tokensOf isWhole cs))
  afterDocument feed
  node.result

end UtilityCss
