import UtilityCss.Files.Glob
import UtilityCss.Proofs.Attempts
import UtilityCss.Proofs.TreeChanges

/-!
# Trees as they can be

In a tree that a file system can hold, everything has a name, stands in a folder, and stands nowhere a second
time. A path that leads from a folder through names of the tree leads to what stands there, unless the path
as a whole is too long to be asked for.
-/

namespace UtilityCss

namespace Path

structure IsName (name : String) : Prop where
  meaningful : isMeaningful name = true
  notUp : name ≠ ".."
  noSlash : '/' ∉ name.toList
  noZero : '\x00' ∉ name.toList
  short : isTooLongName name = false

instance : DecidablePred IsName := fun name =>
  decidable_of_iff (isMeaningful name = true ∧ name ≠ ".." ∧ '/' ∉ name.toList ∧
      '\x00' ∉ name.toList ∧ isTooLongName name = false)
    ⟨fun ⟨meaningful, notUp, noSlash, noZero, short⟩ => ⟨meaningful, notUp, noSlash, noZero, short⟩,
      fun ⟨meaningful, notUp, noSlash, noZero, short⟩ => ⟨meaningful, notUp, noSlash, noZero, short⟩⟩

theorem IsName.follow {name : String} (h : IsName name) (here : Location) :
    Path.follow here name = here ++ [name] := if_neg h.notUp

theorem foldl_follow {names : List String} (h : ".." ∉ names) (here : Location) :
    names.foldl follow here = here ++ names := by
  induction names generalizing here with
  | nil => exact (List.append_nil here).symm
  | cons name names ih =>
    rw [List.mem_cons, not_or] at h
    rw [List.foldl_cons, follow, if_neg (Ne.symm h.1), ih h.2, List.append_assoc, List.singleton_append]

variable {root : Path} {names : List String}

theorem hasZeroByte_below (h : root.hasZeroByte = false) (hnames : ∀ name ∈ names, '\x00' ∉ name.toList) :
    (root.below names).hasZeroByte = false := by
  rw [hasZeroByte, below, List.any_append, Bool.or_eq_false_iff]
  refine ⟨h, List.any_eq_false.2 fun name hname => ?_⟩
  rw [List.contains_iff_mem]
  exact hnames name hname

theorem fault?_cases (h : root.hasZeroByte = false) : root.fault? = none ∨ root.fault? = some .tooLong := by
  rw [fault?, h, if_neg Bool.false_ne_true]
  split
  · exact .inr rfl
  · exact .inl rfl

end Path

namespace FileTree
structure WellFormed (tree : FileTree) : Prop where
  named : ∀ entry ∈ tree.nodes, ∀ name ∈ entry.1, Path.IsName name
  housed : ∀ entry ∈ tree.nodes, tree.node? entry.1.dropLast = some .folder
  distinct : (tree.nodes.map Prod.fst).Nodup

instance (tree : FileTree) : Decidable tree.WellFormed :=
  decidable_of_iff ((∀ entry ∈ tree.nodes, ∀ name ∈ entry.1, Path.IsName name) ∧
      (∀ entry ∈ tree.nodes, tree.node? entry.1.dropLast = some .folder) ∧
      (tree.nodes.map Prod.fst).Nodup)
    ⟨fun ⟨named, housed, distinct⟩ => ⟨named, housed, distinct⟩,
      fun ⟨named, housed, distinct⟩ => ⟨named, housed, distinct⟩⟩

theorem lookup_eq_some {nodes : List (Location × Node)} (h : (nodes.map Prod.fst).Nodup)
    {location : Location} {node : Node} :
    nodes.lookup location = some node ↔ (location, node) ∈ nodes := by
  refine ⟨mem_of_lookup, fun hmem => ?_⟩
  induction nodes with
  | nil => cases hmem
  | cons entry rest ih =>
    rw [List.map_cons, List.nodup_cons] at h
    rcases List.mem_cons.1 hmem with rfl | hrest
    · exact List.lookup_cons_self
    · have hne : location ≠ entry.1 := fun heq => h.1 (heq ▸ List.mem_map_of_mem hrest)
      rw [List.lookup_cons, beq_eq_false_iff_ne.mpr hne]
      exact ih h.2 hrest

variable {tree : FileTree} {here location : Location} {names : List String} {node : Node}

namespace WellFormed

theorem node?_eq_some (h : tree.WellFormed) (hlocation : location ≠ []) :
    tree.node? location = some node ↔ (location, node) ∈ tree.nodes := by
  rw [node?, if_neg (by simpa using hlocation), lookup_eq_some h.distinct]

theorem isName (h : tree.WellFormed) (hnode : tree.node? location = some node) :
    ∀ name ∈ location, Path.IsName name := by
  by_cases hlocation : location = []
  · simp [hlocation]
  · exact h.named _ ((h.node?_eq_some hlocation).1 hnode)

theorem folder_dropLast (h : tree.WellFormed) (hnode : tree.node? location = some node) :
    tree.node? location.dropLast = some .folder := by
  by_cases hlocation : location = []
  · subst hlocation
    rfl
  · exact h.housed _ ((h.node?_eq_some hlocation).1 hnode)

theorem folder_of_append (h : tree.WellFormed) (hnode : tree.node? (here ++ names) = some node)
    (hnames : names ≠ []) : tree.node? here = some .folder := by
  induction names generalizing here with
  | nil => exact absurd rfl hnames
  | cons name rest ih =>
    have hnext : ∃ next, tree.node? (here ++ [name]) = some next := by
      by_cases hrest : rest = []
      · exact ⟨node, hrest ▸ hnode⟩
      · exact ⟨.folder, ih (by rwa [List.append_assoc]) hrest⟩
    obtain ⟨next, hnext⟩ := hnext
    have hparent := h.folder_dropLast hnext
    rwa [List.dropLast_concat] at hparent

theorem walk_of_node? (h : tree.WellFormed) (hnode : tree.node? (here ++ names) = some node) :
    tree.walk here names = .ok (here ++ names) := by
  induction names generalizing here with
  | nil =>
    rw [List.append_nil]
    rfl
  | cons name names ih =>
    have hname : Path.IsName name := h.isName hnode name (by simp)
    have hstep : tree.step here name = .ok (here ++ [name]) := by
      simp only [step, h.folder_of_append hnode (List.cons_ne_nil name names), hname.short,
        Bool.false_eq_true, if_false, hname.follow]
    have hsplit : here ++ name :: names = here ++ [name] ++ names := by simp
    rw [hsplit] at hnode ⊢
    rw [walk, List.foldlM_cons, hstep]
    exact ih hnode

theorem mem_names (h : tree.WellFormed) {folder : Location} {name : String} :
    name ∈ tree.names folder ↔ ∃ node, tree.node? (folder ++ [name]) = some node := by
  have hlocation : folder ++ [name] ≠ [] := List.concat_ne_nil name folder
  simp only [h.node?_eq_some hlocation, names, List.mem_filterMap, Prod.exists]
  constructor
  · rintro ⟨location, node, hmem, hname⟩
    split at hname
    · rename_i last hlast
      obtain ⟨front, rfl⟩ := List.getLast?_eq_some_iff.1 hlast
      rw [List.dropLast_concat] at hname
      split at hname
      · rename_i hfolder
        obtain rfl := Option.some.inj hname
        exact ⟨node, hfolder ▸ hmem⟩
      · cases hname
    · cases hname
  · rintro ⟨node, hmem⟩
    exact ⟨_, node, hmem, by simp⟩

theorem mem_below (h : tree.WellFormed) (hnames : names ≠ []) :
    (names, node) ∈ tree.below here ↔ tree.node? (here ++ names) = some node := by
  have hlocation : here ++ names ≠ [] := by simp [hnames]
  simp only [h.node?_eq_some hlocation, below, List.mem_filterMap, Prod.exists,
    Option.bind_eq_some_iff, List.isPrefixOf?_eq_some_iff_append_eq]
  constructor
  · rintro ⟨location, other, hmem, rest, rfl, hrest⟩
    split at hrest
    · cases hrest
    · obtain ⟨rfl, rfl⟩ := Prod.mk.inj (Option.some.inj hrest)
      exact hmem
  · intro hmem
    exact ⟨_, node, hmem, names, rfl, if_neg (by simpa using hnames)⟩

theorem mem_foldersFrom_iff (h : tree.WellFormed) :
    names ∈ Glob.foldersFrom tree here ↔ names = [] ∨ tree.node? (here ++ names) = some .folder := by
  by_cases hnames : names = []
  · simp [hnames, Glob.foldersFrom]
  · rw [← h.mem_below hnames]
    simp only [Glob.foldersFrom, List.mem_cons, hnames, false_or, List.mem_filterMap, Prod.exists]
    constructor
    · rintro ⟨rest, node, hmem, hrest⟩
      cases node with
      | file bytes => cases hrest
      | folder => exact Option.some.inj hrest ▸ hmem
    · exact fun hmem => ⟨names, .folder, hmem, rfl⟩

theorem mem_foldersFrom (h : tree.WellFormed) (hfolder : tree.node? here = some .folder) :
    names ∈ Glob.foldersFrom tree here ↔ tree.node? (here ++ names) = some .folder := by
  rw [h.mem_foldersFrom_iff, or_iff_right_iff_imp]
  rintro rfl
  rwa [List.append_nil]

end WellFormed

end FileTree

namespace Workspace
variable {space : Workspace} {root : Path} {base : Location} {names : List String}

theorem settle_eq_ok {path : Path} {location : Location} (h : space.settle path = .ok location) :
    location = space.resolve path := by
  rw [settle] at h
  split at h
  · cases h
  · exact (Except.ok.inj h).symm

theorem look_of_locate {path : Path} {location : Location} (h : space.locate path = .ok location) :
    space.look path = .ok (space.tree.node? location) := by
  rw [look, h]

theorem locate_of_look {path : Path} {node : Node} (h : space.look path = .ok (some node)) :
    ∃ location, space.locate path = .ok location ∧ space.tree.node? location = some node := by
  rw [look] at h
  split at h
  · rename_i location hlocate
    exact ⟨location, hlocate, Except.ok.inj h⟩
  · split at h
    · cases h
    · cases Except.ok.inj h

theorem resolve_below (space : Workspace) (root : Path) (names : List String) :
    space.resolve (root.below names) = names.foldl Path.follow (space.resolve root) := by
  simp only [resolve, Path.resolve, Path.below, List.foldl_append]
  rfl

theorem node?_resolve_of_look {path : Path} {node : Node} (h : space.look path = .ok (some node)) :
    space.tree.node? (space.resolve path) = some node := by
  obtain ⟨location, hlocate, hnode⟩ := locate_of_look h
  rwa [← locate_eq_resolve hlocate]

theorem fault?_of_locate {path : Path} (h : space.locate path = .ok base) : path.fault? = none := by
  rw [locate] at h
  split at h
  · cases h
  · assumption

theorem walk_of_locate {path : Path} (h : space.locate path = .ok base) :
    space.tree.walk (space.start path) path.parts = .ok base := by
  simp only [locate, fault?_of_locate h] at h
  cases hwalk : space.tree.walk (space.start path) path.parts with
  | ok location =>
    rw [hwalk] at h
    exact congrArg Except.ok (Except.ok.inj h)
  | error fault =>
    rw [hwalk] at h
    cases h

theorem walk_below (h : space.locate root = .ok base) (names : List String) :
    space.tree.walk (space.start (root.below names)) (root.below names).parts =
      space.tree.walk base names := by
  have hroot := walk_of_locate h
  rw [FileTree.walk] at hroot
  simp only [FileTree.walk, Path.below, List.foldlM_append]
  have hstart : space.start { root with parts := root.parts ++ names } = space.start root := rfl
  rw [hstart, hroot]
  rfl

theorem locate_of_fault? {path : Path} {fault : FileFault} (h : path.fault? = some fault) :
    space.locate path = .error { fault, path } := by
  simp only [locate, h]

theorem locate_of_walk {path : Path} {location : Location} (h : path.fault? = none)
    (hwalk : space.tree.walk (space.start path) path.parts = .ok location) :
    space.locate path = .ok location := by
  simp only [locate, h, hwalk]

theorem locate_of_walk_error {path : Path} {fault : FileFault} (h : path.fault? = none)
    (hwalk : space.tree.walk (space.start path) path.parts = .error fault) :
    space.locate path = .error { fault, path } := by
  simp only [locate, h, hwalk]

/-- A root that is a folder of a well-formed tree, and where it is. -/
structure RootedAt (space : Workspace) (root : Path) (base : Location) : Prop where
  tree : space.tree.WellFormed
  located : space.locate root = .ok base
  folder : space.tree.node? base = some .folder

theorem rootedAt_of_look (htree : space.tree.WellFormed)
    (hroot : space.look root = .ok (some .folder)) : space.RootedAt root (space.resolve root) := by
  obtain ⟨location, hlocate, hfolder⟩ := locate_of_look hroot
  obtain rfl := locate_eq_resolve hlocate
  exact ⟨htree, hlocate, hfolder⟩

namespace RootedAt

variable {node : Node} {found : Option Node}

theorem resolve_below (h : space.RootedAt root base) (names : List String) :
    space.resolve (root.below names) = names.foldl Path.follow base := by
  rw [Workspace.resolve_below, ← locate_eq_resolve h.located]

theorem resolve_below_of_node? (h : space.RootedAt root base)
    (hnode : space.tree.node? (base ++ names) = some node) :
    space.resolve (root.below names) = base ++ names := by
  refine (h.resolve_below names).trans (Path.foldl_follow (fun hup => ?_) base)
  exact (h.tree.isName hnode ".." (List.mem_append_right base hup)).notUp rfl

theorem hasZeroByte_below (h : space.RootedAt root base)
    (hnames : ∀ name ∈ names, '\x00' ∉ name.toList) : (root.below names).hasZeroByte = false := by
  refine Path.hasZeroByte_below ?_ hnames
  have hfault := fault?_of_locate h.located
  rw [Path.fault?] at hfault
  by_contra hbyte
  rw [Bool.not_eq_false] at hbyte
  rw [hbyte] at hfault
  cases hfault

theorem locate_below (h : space.RootedAt root base)
    (hnode : space.tree.node? (base ++ names) = some node)
    (hlook : space.look (root.below names) = .ok found) :
    space.locate (root.below names) = .ok (base ++ names) := by
  have hzero : (root.below names).hasZeroByte = false := h.hasZeroByte_below fun name hname =>
    (h.tree.isName hnode name (List.mem_append_right base hname)).noZero
  rcases Path.fault?_cases hzero with hfault | hfault
  · exact locate_of_walk hfault ((walk_below h.located names).trans (h.tree.walk_of_node? hnode))
  · rw [look, locate_of_fault? hfault] at hlook
    cases hlook

theorem look_tooLong (h : space.RootedAt root base)
    (hfolder : space.tree.node? (base ++ names) = some .folder) {name : String}
    (hzero : '\x00' ∉ name.toList) (hname : Path.isTooLongName name = true) (node : Option Node) :
    space.look (root.below (names ++ [name])) ≠ .ok node := by
  have hbytes : (root.below (names ++ [name])).hasZeroByte = false := by
    refine h.hasZeroByte_below fun other hother => ?_
    rcases List.mem_append.1 hother with hother | hother
    · exact (h.tree.isName hfolder other (List.mem_append_right base hother)).noZero
    · exact List.mem_singleton.1 hother ▸ hzero
  have hstep : space.tree.step (base ++ names) name = .error .tooLong := by
    rw [FileTree.step, hfolder]
    exact if_pos hname
  have hwalk : space.tree.walk base (names ++ [name]) = .error .tooLong := by
    have hnames := h.tree.walk_of_node? hfolder
    rw [FileTree.walk] at hnames
    rw [FileTree.walk, List.foldlM_append, hnames]
    exact congrArg (· >>= pure) hstep
  have hlocate : space.locate (root.below (names ++ [name])) =
      .error { fault := .tooLong, path := root.below (names ++ [name]) } := by
    rcases Path.fault?_cases hbytes with hfault | hfault
    · exact locate_of_walk_error hfault ((walk_below h.located _).trans hwalk)
    · exact locate_of_fault? hfault
  rw [look, hlocate]
  intro hlook
  cases hlook

theorem look_below (h : space.RootedAt root base)
    (hnode : space.tree.node? (base ++ names) = some node)
    (hlook : space.look (root.below names) = .ok found) :
    space.look (root.below names) = .ok (some node) := by
  rw [look_of_locate (h.locate_below hnode hlook), hnode]

end RootedAt

theorem isFile_iff {path : Path} :
    space.isFile path = true ↔ ∃ bytes, space.look path = .ok (some (.file bytes)) := by
  rw [isFile, node?]
  rcases space.look path with error | _ | _ | _ <;> simp [Node.isFile]

theorem RootedAt.getLast?_ne (h : space.RootedAt root base)
    (hfile : space.isFile (root.below names) = true) : names.getLast? ≠ some ".." := by
  intro hlast
  obtain ⟨front, rfl⟩ := List.getLast?_eq_some_iff.1 hlast
  obtain ⟨bytes, hlook⟩ := isFile_iff.1 hfile
  obtain ⟨location, hlocate, hnode⟩ := locate_of_look hlook
  have hwalk := walk_of_locate hlocate
  rw [Path.below, ← List.append_assoc, FileTree.walk, List.foldlM_append] at hwalk
  obtain ⟨here, -, hstep⟩ := bind_eq_ok.1 hwalk
  rw [List.foldlM_cons] at hstep
  obtain ⟨next, hstep, hnext⟩ := bind_eq_ok.1 hstep
  obtain rfl := Except.ok.inj hnext
  rw [FileTree.step] at hstep
  split at hstep
  · cases hstep
  · cases hstep
  · rename_i hfolder
    obtain rfl := Except.ok.inj hstep
    have hparent := h.tree.folder_dropLast hfolder
    rw [Path.follow, if_pos rfl, hparent] at hnode
    cases hnode

end Workspace

end UtilityCss
