import UtilityCss.Proofs.LogFiles
import UtilityCss.Proofs.ProperTrees

/-!
# Trees that grow

Whoever saves a file below a folder adds to a tree: folders on the way, and the file itself. What stood there
before still stands there, of the same kind, so that every path that led somewhere still leads to the same
place, and every file elsewhere is read as before. A tree that a file system can hold stays one.
-/

namespace UtilityCss

theorem Node.eq_folder_of_isFolder {node : Node} (h : node.isFolder = true) : node = .folder := by
  cases node with
  | file bytes => cases h
  | folder => rfl

namespace Path

def Spelled (path : Path) : Prop := ∀ part ∈ path.parts, isMeaningful part = true ∧ '/' ∉ part.toList

instance (path : Path) : Decidable path.Spelled :=
  inferInstanceAs (Decidable (∀ part ∈ path.parts, isMeaningful part = true ∧ '/' ∉ part.toList))

variable {path other : Path}

theorem Spelled.mono (h : path.Spelled) (hparts : other.parts ⊆ path.parts) : other.Spelled :=
  fun part hpart => h part (hparts hpart)

theorem noZero_of_fault? (h : path.fault? = none) {part : String} (hpart : part ∈ path.parts) :
    '\x00' ∉ part.toList := by
  intro hzero
  have hbyte : path.hasZeroByte = true :=
    List.any_eq_true.2 ⟨part, hpart, List.contains_iff_mem.2 hzero⟩
  rw [fault?, hbyte] at h
  cases h

end Path

namespace FileTree

variable {tree later : FileTree} {here location parent : Location} {node : Node}

theorem isFolder_iff : tree.isFolder location = true ↔ tree.node? location = some .folder := by
  rw [isFolder]
  rcases tree.node? location with _ | _ | _ <;> simp [Node.isFolder]

theorem map_isFolder_node? (tree : FileTree) (location : Location) :
    (tree.node? location).map Node.isFolder =
      if location.isEmpty then some true else tree.shape.lookup location := by
  rw [node?]
  split
  · rfl
  · rw [shape]
    induction tree.nodes with
    | nil => rfl
    | cons entry rest ih =>
      rw [List.map_cons, List.lookup_cons, List.lookup_cons]
      cases location == entry.1 with
      | true => rfl
      | false => exact ih

theorem WellFormed.of_shape (h : tree.WellFormed) (hshape : later.shape = tree.shape) :
    later.WellFormed := by
  have hlocations (tree : FileTree) : tree.nodes.map Prod.fst = tree.shape.map Prod.fst := by
    simp [shape]
  have hentries : ∀ entry ∈ later.nodes, ∃ old ∈ tree.nodes, old.1 = entry.1 := by
    intro entry hentry
    have hmem := List.mem_map_of_mem (f := Prod.fst) hentry
    rw [hlocations, hshape, ← hlocations] at hmem
    exact List.mem_map.1 hmem
  refine ⟨fun entry hentry => ?_, fun entry hentry => ?_, ?_⟩
  · obtain ⟨old, hold, hsame⟩ := hentries entry hentry
    exact hsame ▸ h.named old hold
  · obtain ⟨old, hold, hsame⟩ := hentries entry hentry
    have hkind := map_isFolder_node? later entry.1.dropLast
    rw [hshape, ← map_isFolder_node?, ← hsame, h.housed old hold] at hkind
    obtain ⟨node, hnode, hfolder⟩ := Option.map_eq_some_iff.1 hkind
    rw [← hsame, hnode, Node.eq_folder_of_isFolder hfolder]
  · rw [hlocations, hshape, ← hlocations]
    exact h.distinct

theorem putNode_of_lookup {nodes : List (Location × Node)} (h : nodes.lookup location = none) :
    putNode location node nodes = nodes ++ [(location, node)] := by
  induction nodes with
  | nil => rfl
  | cons entry rest ih =>
    rw [List.lookup_cons] at h
    cases hentry : location == entry.1 with
    | true =>
      rw [hentry] at h
      cases h
    | false =>
      rw [hentry] at h
      rw [putNode, if_neg (Ne.symm (beq_eq_false_iff_ne.1 hentry)), ih h, List.cons_append]

theorem WellFormed.put (h : tree.WellFormed) {name : String}
    (hparent : tree.node? parent = some .folder) (hname : Path.IsName name)
    (hnone : tree.node? (parent ++ [name]) = none) (node : Node) :
    (tree.put (parent ++ [name]) node).WellFormed := by
  have hlocation : parent ++ [name] ≠ [] := List.concat_ne_nil name parent
  rw [node?, if_neg (by simp)] at hnone
  have hnodes : (tree.put (parent ++ [name]) node).nodes =
      tree.nodes ++ [(parent ++ [name], node)] := putNode_of_lookup hnone
  have hkept {location : Location} (hfolder : tree.node? location = some .folder) :
      (tree.put (parent ++ [name]) node).node? location = some .folder := by
    rw [node?_put hlocation, if_neg, hfolder]
    rintro rfl
    rw [node?, if_neg (by simp), hnone] at hfolder
    cases hfolder
  refine ⟨?_, ?_, ?_⟩
  · rw [hnodes, List.forall_mem_append, List.forall_mem_singleton, List.forall_mem_append,
      List.forall_mem_singleton]
    exact ⟨h.named, h.isName hparent, hname⟩
  · rw [hnodes, List.forall_mem_append, List.forall_mem_singleton, List.dropLast_concat]
    exact ⟨fun entry hentry => hkept (h.housed entry hentry), hkept hparent⟩
  · rw [hnodes, List.map_append, List.map_singleton, List.nodup_append]
    refine ⟨h.distinct, by simp, fun other hother last hlast => ?_⟩
    rintro rfl
    rw [List.mem_singleton.1 hlast] at hother
    obtain ⟨⟨_, old⟩, hold, rfl⟩ := List.mem_map.1 hother
    rw [(lookup_eq_some h.distinct).2 hold] at hnone
    cases hnone

theorem walk_of_folders
    (h : ∀ {location}, tree.node? location = some .folder → later.node? location = some .folder)
    {parts : List String} (hwalk : tree.walk here parts = .ok location) :
    later.walk here parts = .ok location := by
  induction parts generalizing here with
  | nil => exact hwalk
  | cons part parts ih =>
    rw [walk, List.foldlM_cons] at hwalk ⊢
    obtain ⟨next, hstep, hrest⟩ := bind_eq_ok.1 hwalk
    refine bind_eq_ok.2 ⟨next, ?_, ih hrest⟩
    rw [step] at hstep ⊢
    split at hstep
    · cases hstep
    · cases hstep
    · rename_i hfolder
      simp only [h hfolder, hstep]

theorem walk_eq_tooLong {parts : List String} (h : tree.walk here parts = .error .tooLong) :
    ∃ part ∈ parts, Path.isTooLongName part = true := by
  induction parts generalizing here with
  | nil => cases h
  | cons part parts ih =>
    rw [walk, List.foldlM_cons] at h
    rcases bind_eq_error.1 h with hstep | ⟨next, -, h⟩
    · rw [step] at hstep
      split at hstep
      · cases hstep
      · cases hstep
      · split at hstep
        · rename_i hlong
          exact ⟨part, List.mem_cons_self, hlong⟩
        · cases hstep
    · obtain ⟨other, hother, hlong⟩ := ih h
      exact ⟨other, List.mem_cons_of_mem part hother, hlong⟩

theorem WellFormed.walk_cases (h : tree.WellFormed) (hhere : tree.node? here = some .folder)
    {parts : List String} (hwalk : tree.walk here parts = .ok location) :
    tree.node? location = some .folder ∨ ∃ parent name, location = parent ++ [name] ∧
      tree.node? parent = some .folder ∧ name ∈ parts ∧ name ≠ ".." ∧
      Path.isTooLongName name = false := by
  rcases parts.eq_nil_or_concat with rfl | ⟨front, last, rfl⟩
  · obtain rfl := Except.ok.inj hwalk
    exact .inl hhere
  · rw [walk, List.concat_eq_append, List.foldlM_append] at hwalk
    obtain ⟨parent, -, hstep⟩ := bind_eq_ok.1 hwalk
    rw [List.foldlM_cons] at hstep
    obtain ⟨next, hstep, hnext⟩ := bind_eq_ok.1 hstep
    obtain rfl := Except.ok.inj hnext
    rw [step] at hstep
    split at hstep
    · cases hstep
    · cases hstep
    · rename_i hparent
      split at hstep
      · cases hstep
      · rename_i hshort
        obtain rfl := Except.ok.inj hstep
        rw [Path.follow]
        split
        · exact .inl (h.folder_dropLast hparent)
        · rename_i hup
          exact .inr ⟨parent, last, rfl, hparent, by simp, hup, Bool.eq_false_iff.2 hshort⟩

end FileTree

namespace Workspace

section Paths

variable {space : Workspace} {path : Path}

theorem isFolder_iff : space.isFolder path = true ↔
    ∃ location, space.locate path = .ok location ∧ space.tree.node? location = some .folder := by
  rw [isFolder, node?]
  constructor
  · intro h
    split at h
    · rename_i found hlook
      cases found with
      | none => cases h
      | some node => exact Node.eq_folder_of_isFolder h ▸ locate_of_look hlook
    · cases h
  · rintro ⟨location, hlocate, hnode⟩
    rw [look_of_locate hlocate, hnode]
    rfl

theorem read_eq_ok {bytes : ByteArray} : space.read path = .ok bytes ↔
    ∃ location, space.locate path = .ok location ∧
      space.tree.node? location = some (.file bytes) := by
  rw [read, bind_eq_ok]
  refine exists_congr fun location => and_congr_right fun _ => ?_
  rcases space.tree.node? location with _ | _ | _ <;> simp

end Paths

/-- The second workspace has what the first one has, apart from the bytes of the files at the given places.
All that it has more are folders, and files at these places. -/
structure GrowsAt (places : List Location) (before after : Workspace) : Prop where
  here : after.here = before.here
  kept : ∀ {location : Location} {node : Node}, before.tree.node? location = some node →
    ∃ later, after.tree.node? location = some later ∧ later.isFolder = node.isFolder ∧
      (location ∉ places → later = node)
  added : ∀ {location : Location} {node : Node}, before.tree.node? location = none →
    after.tree.node? location = some node → location ∈ places ∨ node = .folder

theorem GainsFolders.growsAt {before after : Workspace} (h : GainsFolders before after)
    (places : List Location) : GrowsAt places before after where
  here := h.here
  kept {_ node} hnode := ⟨node, h.kept hnode, rfl, fun _ => rfl⟩
  added hnone hnode := .inr (h.added hnone hnode)

theorem DiffersAt.growsAt {places : List Location} {before after : Workspace}
    (h : DiffersAt places before after) : GrowsAt places before after where
  here := h.here
  kept {location node} hnode := by
    have hkind := h.folders location
    rw [hnode, Option.map_some, Option.map_eq_some_iff] at hkind
    obtain ⟨later, hlater, hfolder⟩ := hkind
    refine ⟨later, hlater, hfolder, fun hplace => ?_⟩
    rw [h.elsewhere location hplace, hnode] at hlater
    exact (Option.some.inj hlater).symm
  added {location node} hnone hnode := by
    have hkind := h.folders location
    rw [hnone, hnode] at hkind
    cases hkind

namespace GrowsAt

variable {places : List Location} {before middle after : Workspace} {path : Path} {location : Location}

theorem trans (first : GrowsAt places before middle) (second : GrowsAt places middle after) :
    GrowsAt places before after where
  here := second.here.trans first.here
  kept {location node} hnode := by
    obtain ⟨between, hbetween, hkind, hsame⟩ := first.kept hnode
    obtain ⟨later, hlater, hlaterKind, hlaterSame⟩ := second.kept hbetween
    exact ⟨later, hlater, hlaterKind.trans hkind,
      fun hplace => (hlaterSame hplace).trans (hsame hplace)⟩
  added {location node} hnone hnode := by
    cases hmiddle : middle.tree.node? location with
    | none => exact second.added hmiddle hnode
    | some between =>
      refine (first.added hnone hmiddle).imp_right fun hfolder => ?_
      obtain ⟨later, hlater, hkind, -⟩ := second.kept hmiddle
      rw [hnode] at hlater
      obtain rfl := Option.some.inj hlater
      exact Node.eq_folder_of_isFolder (by rw [hkind, hfolder, Node.isFolder])

theorem mono {more : List Location} (h : GrowsAt places before after) (hsub : places ⊆ more) :
    GrowsAt more before after where
  here := h.here
  kept hnode := by
    obtain ⟨later, hlater, hkind, hsame⟩ := h.kept hnode
    exact ⟨later, hlater, hkind, fun hplace => hsame fun hmem => hplace (hsub hmem)⟩
  added hnone hnode := (h.added hnone hnode).imp_left fun hmem => hsub hmem

theorem resolve (h : GrowsAt places before after) (path : Path) :
    after.resolve path = before.resolve path := by
  rw [Workspace.resolve, Workspace.resolve, h.here]

theorem folder (h : GrowsAt places before after) (hfolder : before.tree.node? location = some .folder) :
    after.tree.node? location = some .folder := by
  obtain ⟨later, hlater, hkind, -⟩ := h.kept hfolder
  rw [hlater, Node.eq_folder_of_isFolder hkind]

theorem node? (h : GrowsAt places before after) (hplace : location ∉ places) {node : Node}
    (hnode : before.tree.node? location = some node) : after.tree.node? location = some node := by
  obtain ⟨later, hlater, -, hsame⟩ := h.kept hnode
  rw [hlater, hsame hplace]

theorem file_of_file (h : GrowsAt places before after) (hplace : location ∉ places) {bytes : ByteArray}
    (hfile : after.tree.node? location = some (.file bytes)) :
    before.tree.node? location = some (.file bytes) := by
  cases hnode : before.tree.node? location with
  | none =>
    have hfolder := (h.added hnode hfile).resolve_left hplace
    cases hfolder
  | some node => rw [← h.node? hplace hnode, hfile]

theorem bytes? (h : GrowsAt places before after) (hplace : location ∉ places) :
    after.tree.bytes? location = before.tree.bytes? location := by
  cases hnode : before.tree.node? location with
  | some node => exact FileTree.bytes?_congr ((h.node? hplace hnode).trans hnode.symm)
  | none =>
    cases hlater : after.tree.node? location with
    | none => exact FileTree.bytes?_congr (hlater.trans hnode.symm)
    | some node =>
      rw [FileTree.bytes?, FileTree.bytes?, hnode, hlater, (h.added hnode hlater).resolve_left hplace]

theorem walk (h : GrowsAt places before after) {here : Location} {parts : List String}
    (hwalk : before.tree.walk here parts = .ok location) :
    after.tree.walk here parts = .ok location :=
  FileTree.walk_of_folders (fun hfolder => h.folder hfolder) hwalk

theorem locate (h : GrowsAt places before after) (hlocate : before.locate path = .ok location) :
    after.locate path = .ok location := by
  refine locate_of_walk (fault?_of_locate hlocate) ?_
  have hstart : after.start path = before.start path := by rw [start, start, h.here]
  rw [hstart]
  exact h.walk (walk_of_locate hlocate)

theorem isFolder (h : GrowsAt places before after) (hfolder : before.isFolder path = true) :
    after.isFolder path = true := by
  obtain ⟨location, hlocate, hnode⟩ := isFolder_iff.1 hfolder
  exact isFolder_iff.2 ⟨location, h.locate hlocate, h.folder hnode⟩

theorem read (h : GrowsAt places before after) (hplace : before.resolve path ∉ places)
    {bytes : ByteArray} (hread : before.read path = .ok bytes) : after.read path = .ok bytes := by
  obtain ⟨location, hlocate, hnode⟩ := read_eq_ok.1 hread
  refine read_eq_ok.2 ⟨location, h.locate hlocate, h.node? ?_ hnode⟩
  rwa [locate_eq_resolve hlocate]

end GrowsAt

/-! ### Saving -/

variable {space after : Workspace} {path : Path} {bytes : ByteArray}

theorem growsAt_of_write (h : space.write path bytes = .ok after) :
    GrowsAt [space.resolve path] space after := by
  rw [write] at h
  obtain ⟨location, hlocate, h⟩ := bind_eq_ok.1 h
  obtain rfl := locate_eq_resolve hlocate
  split at h
  · cases h
  · rename_i hfolder
    obtain rfl := Except.ok.inj h
    have hlocation : space.resolve path ≠ [] := by
      intro hnil
      rw [hnil] at hfolder
      exact hfolder rfl
    refine ⟨rfl, fun {other node} hnode => ?_, fun {other node} hnone hnode => ?_⟩
    · by_cases hother : other = space.resolve path
      · refine ⟨.file bytes, by rw [FileTree.node?_put hlocation, if_pos hother], ?_, ?_⟩
        · cases node with
          | file old => rfl
          | folder => exact absurd (hother ▸ hnode) hfolder
        · exact fun hplace => absurd (List.mem_singleton.2 hother) hplace
      · exact ⟨node, by rwa [FileTree.node?_put hlocation, if_neg hother], rfl, fun _ => rfl⟩
    · rw [FileTree.node?_put hlocation] at hnode
      split at hnode
      · rename_i hother
        exact .inl (List.mem_singleton.2 hother)
      · rw [hnone] at hnode
        cases hnode

theorem growsAt_save (space : Workspace) (path : Path) (bytes : ByteArray) :
    GrowsAt [space.resolve path] space (space.save path bytes).1 := by
  have hfolders := gainsFolders_makeFoldersTo space path.parent path.parent.parts.length
  rw [save, makeFolders]
  split
  · rename_i made error hmade
    rw [hmade] at hfolders
    exact hfolders.growsAt _
  · rename_i made hmade
    rw [hmade] at hfolders
    split
    · rename_i saved hsaved
      exact (hfolders.growsAt _).trans (hfolders.resolve path ▸ growsAt_of_write hsaved)
    · exact hfolders.growsAt _

theorem isFolder_of_makeFolder (h : space.makeFolder path = .ok after) : after.isFolder path = true := by
  have hgains := (gainsFolders_of_makeFolder h).growsAt []
  rw [makeFolder] at h
  obtain ⟨location, hlocate, h⟩ := bind_eq_ok.1 h
  refine isFolder_iff.2 ⟨location, hgains.locate hlocate, ?_⟩
  split at h
  · cases h
  · rename_i hnone
    obtain rfl := Except.ok.inj h
    have hlocation : location ≠ [] := by
      rintro rfl
      cases hnone
    rw [FileTree.node?_put hlocation, if_pos rfl]

theorem isFolder_of_ensureFolder (h : space.ensureFolder path = (after, none)) :
    after.isFolder path = true := by
  rw [ensureFolder] at h
  split at h
  · rename_i hmade
    exact (Prod.mk.inj h).1 ▸ isFolder_of_makeFolder hmade
  · obtain ⟨rfl, herror⟩ := Prod.mk.inj h
    by_contra hfolder
    rw [if_neg hfolder] at herror
    cases herror

theorem isFolder_of_makeFolders (h : space.makeFolders path = (after, none)) :
    after.isFolder path = true := by
  rw [makeFolders] at h
  cases hlength : path.parts.length with
  | zero =>
    rw [hlength, makeFoldersTo, ← List.eq_nil_of_length_eq_zero hlength] at h
    exact isFolder_of_ensureFolder h
  | succ depth =>
    rw [hlength, makeFoldersTo, ← hlength, List.take_length] at h
    split at h
    · split at h
      · cases h
      · exact isFolder_of_ensureFolder h
    · exact isFolder_of_ensureFolder h

theorem makeFolders_of_isFolder (h : space.isFolder path = true) :
    space.makeFolders path = (space, none) := by
  obtain ⟨location, hlocate, hnode⟩ := isFolder_iff.1 h
  have hmake : space.makeFolder path = .error { fault := .taken, path } := by
    rw [makeFolder, hlocate]
    simp only [bind, Except.bind, hnode]
  have hensure : space.ensureFolder path = (space, none) := by
    simp only [ensureFolder, hmake, h, if_true]
  rw [makeFolders]
  cases hlength : path.parts.length with
  | zero => rwa [makeFoldersTo, ← List.eq_nil_of_length_eq_zero hlength]
  | succ depth =>
    rw [makeFoldersTo, ← hlength, List.take_length, hmake]
    exact hensure

/-! ### Proper workspaces -/

/-- A tree that a file system can hold, seen from one of its folders. -/
structure Proper (space : Workspace) : Prop where
  tree : space.tree.WellFormed
  here : space.tree.node? space.here = some .folder

instance (space : Workspace) : Decidable space.Proper :=
  decidable_of_iff (space.tree.WellFormed ∧ space.tree.node? space.here = some .folder)
    ⟨fun ⟨tree, here⟩ => ⟨tree, here⟩, fun ⟨tree, here⟩ => ⟨tree, here⟩⟩

namespace Proper

theorem start (h : space.Proper) (path : Path) :
    space.tree.node? (space.start path) = some .folder := by
  rw [Workspace.start]
  split
  · rfl
  · exact h.here

theorem of_growsAt (h : space.Proper) {places : List Location} (hgrows : GrowsAt places space after)
    (htree : after.tree.WellFormed) : after.Proper where
  tree := htree
  here := hgrows.here ▸ hgrows.folder h.here

theorem put (h : space.Proper) (hspelled : path.Spelled) {location : Location} {node : Node}
    (hlocate : space.locate path = .ok location)
    (hkind : ∀ old, space.tree.node? location = some old → old ≠ .folder ∧ node.isFolder = old.isFolder) :
    (space.tree.put location node).WellFormed := by
  rcases h.tree.walk_cases (h.start path) (walk_of_locate hlocate) with
    hfolder | ⟨parent, name, rfl, hparent, hname, hup, hshort⟩
  · exact absurd rfl (hkind _ hfolder).1
  · have hisName : Path.IsName name :=
      ⟨(hspelled name hname).1, hup, (hspelled name hname).2,
        Path.noZero_of_fault? (fault?_of_locate hlocate) hname, hshort⟩
    cases hnode : space.tree.node? (parent ++ [name]) with
    | none => exact h.tree.put hparent hisName hnode node
    | some old =>
      refine h.tree.of_shape (FileTree.shape_put ?_ (hkind old hnode).2)
      rwa [FileTree.node?, if_neg (by simp)] at hnode

theorem makeFolder (h : space.Proper) (hspelled : path.Spelled)
    (hmake : space.makeFolder path = .ok after) : after.Proper := by
  refine h.of_growsAt ((gainsFolders_of_makeFolder hmake).growsAt []) ?_
  rw [Workspace.makeFolder] at hmake
  obtain ⟨location, hlocate, hmake⟩ := bind_eq_ok.1 hmake
  split at hmake
  · cases hmake
  · rename_i hnone
    obtain rfl := Except.ok.inj hmake
    exact h.put hspelled hlocate fun old hold => by simp [hnone] at hold

theorem ensureFolder (h : space.Proper) (hspelled : path.Spelled) :
    (space.ensureFolder path).1.Proper := by
  rw [Workspace.ensureFolder]
  split
  · rename_i hmade
    exact h.makeFolder hspelled hmade
  · exact h

theorem makeFoldersTo (h : space.Proper) (hspelled : path.Spelled) (depth : Nat) :
    (space.makeFoldersTo path depth).1.Proper := by
  have hshorter (depth : Nat) : { path with parts := path.parts.take depth }.Spelled :=
    hspelled.mono (List.take_subset _ _)
  induction depth with
  | zero => exact h.ensureFolder (hshorter 0)
  | succ depth ih =>
    rw [Workspace.makeFoldersTo]
    split
    · split
      · rename_i hto
        rwa [hto] at ih
      · rename_i hto
        rw [hto] at ih
        exact ih.ensureFolder (hshorter _)
    · exact h.ensureFolder (hshorter _)

theorem write (h : space.Proper) (hspelled : path.Spelled)
    (hwrite : space.write path bytes = .ok after) : after.Proper := by
  refine h.of_growsAt (growsAt_of_write hwrite) ?_
  rw [Workspace.write] at hwrite
  obtain ⟨location, hlocate, hwrite⟩ := bind_eq_ok.1 hwrite
  split at hwrite
  · cases hwrite
  · rename_i hfolder
    obtain rfl := Except.ok.inj hwrite
    refine h.put hspelled hlocate fun old hold => ?_
    cases old with
    | file bytes => exact ⟨Node.noConfusion, rfl⟩
    | folder => exact absurd hold hfolder

theorem save (h : space.Proper) (hspelled : path.Spelled) (bytes : ByteArray) :
    (space.save path bytes).1.Proper := by
  have hparent : path.parent.Spelled := hspelled.mono (List.dropLast_subset path.parts)
  have hfolders := h.makeFoldersTo hparent path.parent.parts.length
  rw [Workspace.save, makeFolders]
  split
  · rename_i hmade
    rwa [hmade] at hfolders
  · rename_i hmade
    rw [hmade] at hfolders
    split
    · rename_i hsaved
      exact hfolders.write hspelled hsaved
    · exact hfolders

end Proper

end Workspace

theorem Session.Logged.proper {before after : Session} (h : Logged before after)
    (hproper : before.space.Proper) : after.space.Proper :=
  hproper.of_growsAt h.files.growsAt (hproper.tree.of_shape h.shape)

end UtilityCss
