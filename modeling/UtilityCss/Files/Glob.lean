import UtilityCss.Files.Tree

/-!
# Patterns for file names and paths

In a name pattern a star stands for any characters, a question mark for one, and brackets for one of a set.
A path pattern is a list of name patterns. Compared with a path it is matched from the last name backwards,
and a double star is an ordinary star; used to search below a folder a double star spans any number of
folders.
-/

namespace UtilityCss.Glob

inductive Item
  | literal (c : Char)
  | one
  | many
  | oneOf (negated : Bool) (ranges : List (Char × Char))
  deriving DecidableEq, Repr

def bracket? (cs : List Char) : Option (List Char × List Char) :=
  match cs with
  | '!' :: ']' :: rest => (Text.firstCut? ']' rest).map fun p => ('!' :: ']' :: p.1, p.2)
  | ']' :: rest => (Text.firstCut? ']' rest).map fun p => (']' :: p.1, p.2)
  | cs => Text.firstCut? ']' cs

/-- The chunks of a set: a dash behind at least `least` characters divides them, and a dash at the end is a
character of the last one. The number of characters is fuel enough. -/
def chunksFrom (least fuel : Nat) (cs : List Char) : List (List Char) :=
  match fuel, Text.firstCut? '-' (cs.drop least) with
  | 0, _ | _, none => [cs]
  | _, some (chunk, []) => [cs.take least ++ chunk ++ ['-']]
  | fuel + 1, some (chunk, rest) => (cs.take least ++ chunk) :: chunksFrom 2 fuel rest

/-- Two chunks make a range of the characters at the dash; where these are in the wrong order they are
dropped, and the chunks become one. -/
def joinChunk (chunk : List Char) (chunks : List (List Char)) : List (List Char) :=
  match chunk.getLast?, chunks with
  | some low, (high :: next) :: rest =>
    if high < low then (chunk.dropLast ++ next) :: rest else chunk :: chunks
  | _, _ => chunk :: chunks

def ranges : List Char → List (List Char) → List (Char × Char)
  | [], [] => []
  | [], chunk :: rest => ('-', '-') :: ranges chunk rest
  | [low], (high :: chunk) :: rest => (low, high) :: ranges chunk rest
  | c :: chunk, rest => (c, c) :: ranges chunk rest
termination_by chunk rest => (rest.length, chunk.length)

/-- An exclamation mark negates the set when it comes first, be it only because what stood before it was
dropped. -/
def oneOf (contents : List Char) : Item :=
  let least := if contents.head? = some '!' then 2 else 1
  match (chunksFrom least contents.length contents).foldr joinChunk [] with
  | ('!' :: first) :: rest => .oneOf true (ranges first rest)
  | first :: rest => .oneOf false (ranges first rest)
  | [] => .oneOf false []

def itemsFrom (skip : Nat) : List Char → List Item
  | [] => []
  | c :: cs =>
    match skip with
    | skip + 1 => itemsFrom skip cs
    | 0 =>
      if c = '*' then .many :: itemsFrom 0 cs
      else if c = '?' then .one :: itemsFrom 0 cs
      else if c = '[' then
        match bracket? cs with
        | some (contents, rest) => oneOf contents :: itemsFrom (cs.length - rest.length) cs
        | none => .literal c :: itemsFrom 0 cs
      else .literal c :: itemsFrom 0 cs

def items (pattern : String) : List Item := itemsFrom 0 pattern.toList

def Item.accepts (c : Char) : Item → Bool
  | .literal d => c == d
  | .one | .many => true
  | .oneOf negated ranges => negated != ranges.any fun range => range.1 ≤ c && c ≤ range.2

def fits : List Item → List Char → Bool
  | [], cs => cs.isEmpty
  | .many :: items, [] => fits items []
  | .many :: items, c :: cs => fits items (c :: cs) || fits (.many :: items) cs
  | _ :: _, [] => false
  | item :: items, c :: cs => item.accepts c && fits items cs
termination_by items cs => (items.length, cs.length)

/-! ### All ends at once

Whether the ends of a name fit a pattern, the longest end first. Each item is looked at once for every end,
however many stars there are. -/

def ends : List Char → List (List Char)
  | [] => [[]]
  | c :: cs => (c :: cs) :: ends cs

def fitsOne (item : Item) : List Char → List Bool → List Bool
  | c :: cs, _ :: later => (item.accepts c && later.headD false) :: fitsOne item cs later
  | _, _ => [false]

def fitsMany : List Bool → List Bool
  | [] => []
  | fit :: later =>
    let later := fitsMany later
    (fit || later.headD false) :: later

def fitsEnds (cs : List Char) : List Item → List Bool
  | [] => (ends cs).map List.isEmpty
  | .many :: items => fitsMany (fitsEnds cs items)
  | item :: items => fitsOne item cs (fitsEnds cs items)

theorem headD_map_ends (f : List Char → Bool) (cs : List Char) :
    ((ends cs).map f).headD false = f cs := by
  cases cs <;> simp [ends]

theorem fitsMany_ends (items : List Item) : ∀ cs : List Char,
    fitsMany ((ends cs).map (fits items)) = (ends cs).map (fits (.many :: items))
  | [] => by simp [ends, fitsMany, fits]
  | c :: cs => by
    simp only [ends, List.map_cons, fitsMany, fitsMany_ends items cs, headD_map_ends, fits]

theorem fitsOne_ends {item : Item} (h : item ≠ .many) (items : List Item) : ∀ cs : List Char,
    fitsOne item cs ((ends cs).map (fits items)) = (ends cs).map (fits (item :: items))
  | [] => by cases item <;> simp_all [ends, fitsOne, fits]
  | c :: cs => by
    have hc : fits (item :: items) (c :: cs) = (item.accepts c && fits items cs) := by
      cases item <;> simp_all [fits]
    simp only [ends, List.map_cons, fitsOne, fitsOne_ends h items cs, headD_map_ends, hc]

theorem fitsEnds_eq (cs : List Char) : ∀ items : List Item,
    fitsEnds cs items = (ends cs).map (fits items)
  | [] => by
    refine List.map_congr_left fun rest _ => ?_
    simp [fits]
  | .many :: items => by rw [fitsEnds, fitsEnds_eq cs items, fitsMany_ends]
  | .literal c :: items => by rw [fitsEnds, fitsEnds_eq cs items, fitsOne_ends (by simp)]; simp
  | .one :: items => by rw [fitsEnds, fitsEnds_eq cs items, fitsOne_ends (by simp)]; simp
  | .oneOf n r :: items => by rw [fitsEnds, fitsEnds_eq cs items, fitsOne_ends (by simp)]; simp

theorem headD_fitsEnds (items : List Item) (cs : List Char) :
    (fitsEnds cs items).headD false = fits items cs := by
  rw [fitsEnds_eq, headD_map_ends]

def matchesName (pattern name : String) : Bool :=
  (fitsEnds name.toList (items pattern)).headD false

theorem matchesName_eq (pattern name : String) :
    matchesName pattern name = fits (items pattern) name.toList :=
  headD_fitsEnds _ _

inductive Fault
  /-- A pattern without a name cannot be compared with a path. -/
  | empty
  | absolute
  | partialDoubleStar
  deriving DecidableEq, Repr

def Fault.message : Fault → String
  | empty => "empty pattern"
  | absolute => "Non-relative patterns are unsupported"
  | partialDoubleStar => "Invalid pattern: '**' can only be an entire path component"

/-! ### Comparing a path -/

def backwards (path : Path) : List String := path.names.reverse

def matchesEnd : List String → List String → Bool
  | [], _ => true
  | _ :: _, [] => false
  | pattern :: patterns, name :: names => matchesName pattern name && matchesEnd patterns names

/-- An absolute pattern has to fit a whole path that begins like it, another one the last names of a path. -/
def matchesPath (pattern : String) (path : Path) : Except Fault Bool :=
  let wanted := Path.ofText pattern
  if wanted.isAbsolute then
    .ok (path.anchor = wanted.anchor && wanted.parts.length = path.parts.length &&
      matchesEnd wanted.parts.reverse path.parts.reverse)
  else if wanted.parts.isEmpty then .error .empty
  else .ok (matchesEnd wanted.parts.reverse (backwards path))

/-- A pattern with a slash or a double star is compared with the path, another one with the name. -/
def isPathPattern (pattern : String) : Bool :=
  Text.mentions ['*', '*'] pattern.toList || Text.mentions ['/'] pattern.toList

def matchesOne (path : Path) (pattern : String) : Except Fault Bool :=
  if isPathPattern pattern then matchesPath pattern path else .ok (matchesName pattern path.name)

def matchesAny (path : Path) : List String → Except Fault Bool
  | [] => .ok false
  | pattern :: patterns => do
    if ← matchesOne path pattern then .ok true else matchesAny path patterns

/-! ### Searching below a folder -/

inductive Part
  | exact (name : String)
  | wildcard (pattern : String)
  | doubleStar
  /-- Nothing follows the last slash. -/
  | finish
  deriving DecidableEq, Repr

def isWildcard (part : String) : Bool := part.toList.any ['*', '?', '['].contains

def partOf (part : String) : Except Fault Part :=
  if part = "**" then .ok .doubleStar
  else if Text.mentions ['*', '*'] part.toList then .error .partialDoubleStar
  else if isWildcard part then .ok (.wildcard part)
  else .ok (.exact part)

def partsOf (pattern : String) : Except Fault (List Part) := do
  let path := Path.ofText pattern
  if path.isAbsolute then throw .absolute
  let parts ← path.parts.mapM partOf
  .ok (if pattern.toList.getLast? = some '/' then parts ++ [.finish] else parts)

def foldersFrom (tree : FileTree) (location : Location) : List Location :=
  [] :: (tree.below location).filterMap fun (rest, node) => if node.isFolder then some rest else none

/-- The paths below `root` that the parts of a pattern lead to from `here`. Every folder that is searched has
to be listed, which it cannot be when its path is too long. -/
def select (space : Workspace) (root : Path) :
    List Part → List String → Except FileError (List (List String))
  | [], here | .finish :: _, here => .ok [here]
  | .exact name :: rest, here => do
    let found ← space.look (root.below (here ++ [name]))
    let fits := if rest.isEmpty then found.isSome else found.any Node.isFolder
    if fits then select space root rest (here ++ [name]) else .ok []
  | .wildcard pattern :: rest, here => do
    let location ← space.locate (root.below here)
    let names := (space.tree.names location).filter fun name => matchesName pattern name &&
      (rest.isEmpty || space.tree.isFolder (location ++ [name]))
    let found ← names.mapM fun name => select space root rest (here ++ [name])
    .ok found.flatten
  | .doubleStar :: rest, here => do
    let folders := foldersFrom space.tree (space.resolve (root.below here))
    let found ← folders.mapM fun folder => do
      let found ← select space root rest (here ++ folder)
      let _ ← space.locate (root.below (here ++ folder))
      .ok found
    .ok found.flatten

def search (space : Workspace) (root : Path) (parts : List Part) :
    Except FileError (List (List String)) :=
  (select space root (.doubleStar :: parts) []).map List.eraseDups

end UtilityCss.Glob
