import UtilityCss.Proofs.FoundFiles
import UtilityCss.Proofs.GrownTrees

/-!
# What a scan finds again

Two workspaces may hold different things, and still a path may lead to the same place in both, with a thing of
the same kind there. Such a path is found in both or in neither, whatever the pattern is: on the way to it a
search meets nothing that is only in one of them. What a scan finds in a grown tree it has therefore found
before, unless it stands at a place where files were written or the way to it goes up out of a new folder.
-/

namespace UtilityCss

namespace Workspace

/-- The names of a path lead to a location, however long the path is as a text. -/
structure Reaches (space : Workspace) (path : Path) (location : Location) : Prop where
  noZero : path.hasZeroByte = false
  walk : space.tree.walk (space.start path) path.parts = .ok location

section Reaching

variable {space : Workspace} {path root : Path} {location base : Location} {here names : List String}

theorem resolve_below_append (space : Workspace) (root : Path) (here names : List String) :
    space.resolve (root.below (here ++ names)) =
      names.foldl Path.follow (space.resolve (root.below here)) := by
  rw [resolve_below, resolve_below, List.foldl_append]

theorem reaches_of_locate (h : space.locate path = .ok location) : space.Reaches path location where
  noZero := by
    have hfault := fault?_of_locate h
    rw [Path.fault?] at hfault
    by_contra hbyte
    rw [Bool.not_eq_false] at hbyte
    rw [hbyte] at hfault
    cases hfault
  walk := walk_of_locate h

namespace Reaches

theorem resolve_eq (h : space.Reaches path location) : space.resolve path = location :=
  (walk_eq_foldl h.walk).symm

theorem locate_cases (h : space.Reaches path location) : space.locate path = .ok location ∨
    space.locate path = .error { fault := .tooLong, path } := by
  rcases Path.fault?_cases h.noZero with hfault | hfault
  · exact .inl (locate_of_walk hfault h.walk)
  · exact .inr (locate_of_fault? hfault)

theorem look_eq (h : space.Reaches path location) {found : Option Node}
    (hlook : space.look path = .ok found) : found = space.tree.node? location := by
  rcases h.locate_cases with hlocate | hlocate
  · exact Except.ok.inj (hlook.symm.trans (look_of_locate hlocate))
  · rw [look, hlocate] at hlook
    cases hlook

theorem of_append (h : space.Reaches (root.below (here ++ names)) location) :
    ∃ middle, space.Reaches (root.below here) middle ∧
      space.tree.walk middle names = .ok location := by
  have hwalk := h.walk
  rw [Path.below, ← List.append_assoc, FileTree.walk, List.foldlM_append] at hwalk
  obtain ⟨middle, hmiddle, hrest⟩ := bind_eq_ok.1 hwalk
  refine ⟨middle, ⟨?_, hmiddle⟩, hrest⟩
  have hzero := h.noZero
  rw [Path.hasZeroByte, Path.below, ← List.append_assoc, List.any_append, Bool.or_eq_false_iff] at hzero
  exact hzero.1

theorem below (h : space.Reaches (root.below here) location) (htree : space.tree.WellFormed)
    {node : Node} (hnode : space.tree.node? (location ++ names) = some node) :
    space.Reaches (root.below (here ++ names)) (location ++ names) where
  noZero := by
    have hbelow : root.below (here ++ names) = (root.below here).below names := by
      simp [Path.below]
    exact hbelow ▸ Path.hasZeroByte_below h.noZero fun name hname =>
      (htree.isName hnode name (List.mem_append_right location hname)).noZero
  walk := by
    have hwalk := h.walk
    have hstart : space.start (root.below (here ++ names)) = space.start (root.below here) := rfl
    rw [hstart]
    simp only [Path.below, FileTree.walk] at hwalk ⊢
    rw [← List.append_assoc, List.foldlM_append]
    exact bind_eq_ok.2 ⟨location, hwalk, htree.walk_of_node? hnode⟩

end Reaches

theorem RootedAt.reaches (h : space.RootedAt root base) : space.Reaches (root.below []) base := by
  rw [Path.below, List.append_nil]
  exact reaches_of_locate h.located

theorem folder_of_walk {tree : FileTree} {name : String}
    (h : tree.walk location (name :: names) = .ok base) : tree.node? location = some .folder := by
  rw [FileTree.walk, List.foldlM_cons] at h
  obtain ⟨next, hstep, -⟩ := bind_eq_ok.1 h
  rw [FileTree.step] at hstep
  split at hstep
  · cases hstep
  · cases hstep
  · assumption

theorem look_eq_error {error : FileError} (h : space.look path = .error error) :
    error = { fault := .tooLong, path } := by
  rw [look] at h
  split at h
  · cases h
  · rename_i other hlocate
    split at h
    · rename_i hfault
      obtain rfl := Except.error.inj h
      rw [locate] at hlocate
      split at hlocate
      · obtain rfl := Except.error.inj hlocate
        exact congrArg (FileError.mk · path) hfault
      · split at hlocate
        · cases hlocate
        · obtain rfl := Except.error.inj hlocate
          exact congrArg (FileError.mk · path) hfault
    · cases h

end Reaching

/-- A path leads to the same place in both workspaces, with things of the same kind there. -/
structure Shared (before after : Workspace) (path : Path) (location : Location) : Prop where
  here : after.here = before.here
  first : before.Reaches path location
  second : after.Reaches path location
  there : ∃ node later, before.tree.node? location = some node ∧
    after.tree.node? location = some later ∧ later.isFolder = node.isFolder

namespace Shared

variable {before after : Workspace} {path root : Path} {location : Location} {here names : List String}

theorem symm (h : Shared before after path location) : Shared after before path location := by
  obtain ⟨node, later, hnode, hlater, hkind⟩ := h.there
  exact ⟨h.here.symm, h.second, h.first, later, node, hlater, hnode, hkind.symm⟩

theorem of_append (h : Shared before after (root.below (here ++ names)) location) :
    ∃ middle, Shared before after (root.below here) middle := by
  obtain ⟨middle, hfirst, hrest⟩ := h.first.of_append
  obtain ⟨other, hsecond, hmore⟩ := h.second.of_append
  obtain rfl : middle = other := by
    rw [← hfirst.resolve_eq, ← hsecond.resolve_eq, resolve, resolve, h.here]
  refine ⟨middle, h.here, hfirst, hsecond, ?_⟩
  cases names with
  | nil =>
    obtain rfl := Except.ok.inj hrest
    exact h.there
  | cons name names =>
    exact ⟨.folder, .folder, folder_of_walk hrest, folder_of_walk hmore, rfl⟩

end Shared

end Workspace

namespace Glob

open Workspace (Shared locate_eq_resolve resolve)

variable {space before after : Workspace} {root : Path} {parts : List Part} {here names : List String}
  {found later : List (List String)} {location : Location} {name : String}

def goesOn (parts : List Part) (node : Option Node) : Bool :=
  if parts.isEmpty then node.isSome else node.any Node.isFolder

theorem select_exact_eq_ok :
    select space root (.exact name :: parts) here = .ok found ↔
      ∃ node, space.look (root.below (here ++ [name])) = .ok node ∧
        ((goesOn parts node = true ∧ select space root parts (here ++ [name]) = .ok found) ∨
          (goesOn parts node = false ∧ found = [])) := by
  rw [select, bind_eq_ok]
  refine exists_congr fun node => and_congr_right fun _ => ?_
  cases hgoes : goesOn parts node with
  | true =>
    rw [goesOn] at hgoes
    simp only [hgoes, if_true, true_and, Bool.true_eq_false, false_and, or_false]
  | false =>
    rw [goesOn] at hgoes
    simp only [hgoes, Bool.false_eq_true, if_false, false_and, true_and, false_or, Except.ok.injEq,
      @eq_comm _ _ found]

theorem exists_select_wildcard {pattern : String}
    (h : select space root (.wildcard pattern :: parts) here = .ok found)
    (hlocate : space.locate (root.below here) = .ok location) (hname : name ∈ space.tree.names location)
    (hmatches : matchesName pattern name = true)
    (hfolder : parts = [] ∨ space.tree.isFolder (location ++ [name]) = true) :
    ∃ more, select space root parts (here ++ [name]) = .ok more := by
  obtain ⟨place, hplace, h⟩ := bind_eq_ok.1 h
  obtain rfl := Except.ok.inj (hlocate.symm.trans hplace)
  obtain ⟨lists, hlists, -⟩ := bind_eq_ok.1 h
  refine exists_mapM_eq_ok.1 ⟨lists, hlists⟩ name (List.mem_filter.2 ⟨hname, ?_⟩)
  rw [hmatches, Bool.true_and, Bool.or_eq_true, List.isEmpty_iff]
  exact hfolder

theorem mem_select_of_shared (hbefore : before.tree.WellFormed) (hafter : after.tree.WellFormed)
    (hshared : Shared before after (root.below names) location)
    (hfound : select before root parts here = .ok found)
    (hlater : select after root parts here = .ok later) (hnames : names ∈ later) : names ∈ found := by
  induction parts generalizing here found later with
  | nil =>
    rw [select] at hfound hlater
    rwa [← Except.ok.inj hfound, Except.ok.inj hlater]
  | cons part parts ih =>
    cases part with
    | finish =>
      rw [select] at hfound hlater
      rwa [← Except.ok.inj hfound, Except.ok.inj hlater]
    | exact name =>
      obtain ⟨node, hlook, ⟨hgoes, hlater⟩ | ⟨-, rfl⟩⟩ := select_exact_eq_ok.1 hlater
      · obtain ⟨rest, rfl, -⟩ := leads_of_select hafter hlater hnames
        obtain ⟨place, hplace⟩ := hshared.of_append
        obtain ⟨old, new, hold, hnew, hkind⟩ := hplace.there
        obtain ⟨other, hother, hfound⟩ := select_exact_eq_ok.1 hfound
        obtain rfl := (hplace.second.look_eq hlook).trans hnew
        obtain rfl := (hplace.first.look_eq hother).trans hold
        have hsame : goesOn parts (some old) = goesOn parts (some new) := by
          rw [goesOn, goesOn, Option.any_some, Option.any_some, hkind]
          rfl
        rw [hsame, hgoes] at hfound
        obtain ⟨-, hfound⟩ := hfound.resolve_right (by simp)
        exact ih hfound hlater hnames
      · cases hnames
    | wildcard pattern =>
      obtain ⟨folder, hlocate, hlater⟩ := mem_select_wildcard hlater
      obtain ⟨name, hname, hmatches, hgoes, more, hmore, hnames⟩ := hlater.1 hnames
      obtain ⟨rest, rfl, -⟩ := leads_of_select hafter hmore hnames
      obtain ⟨place, hplace⟩ := hshared.of_append
      obtain ⟨other, hother, hiff⟩ := mem_select_wildcard hfound
      obtain ⟨new, hnew⟩ := hafter.mem_names.1 hname
      obtain rfl : place = folder ++ [name] := by
        rw [← hplace.second.resolve_eq, Workspace.resolve_below_append, ← locate_eq_resolve hlocate,
          List.foldl_cons, List.foldl_nil, (hafter.isName hnew name (by simp)).follow]
      obtain rfl : other = folder := by
        rw [locate_eq_resolve hother, locate_eq_resolve hlocate, resolve, resolve, hshared.here]
      obtain ⟨old, _, hold, hnew', hkind⟩ := hplace.there
      have hgoes' : parts = [] ∨ before.tree.isFolder (other ++ [name]) = true := by
        refine hgoes.imp_right fun hfolder => ?_
        rw [FileTree.isFolder, hnew', Option.any_some] at hfolder
        rw [FileTree.isFolder, hold, Option.any_some, ← hkind, hfolder]
      have hname' : name ∈ before.tree.names other := hbefore.mem_names.2 ⟨old, hold⟩
      obtain ⟨found, hfound⟩ := exists_select_wildcard hfound hother hname' hmatches hgoes'
      exact hiff.2 ⟨name, hname', hmatches, hgoes', found, hfound, ih hfound hmore hnames⟩
    | doubleStar =>
      obtain ⟨folder, hfolder, more, hmore, hnames⟩ := (mem_select_doubleStar hlater).1 hnames
      obtain ⟨rest, rfl, -⟩ := leads_of_select hafter hmore hnames
      obtain ⟨place, hplace⟩ := hshared.of_append
      have hfolder' : folder ∈ foldersFrom before.tree (before.resolve (root.below here)) := by
        rw [hafter.mem_foldersFrom_iff] at hfolder
        rw [hbefore.mem_foldersFrom_iff]
        refine hfolder.imp_right fun hnode => ?_
        have hup : ".." ∉ folder := fun hup =>
          (hafter.isName hnode ".." (List.mem_append_right _ hup)).notUp rfl
        have hresolve : before.resolve (root.below here) ++ folder = place := by
          rw [← hplace.first.resolve_eq, Workspace.resolve_below_append, Path.foldl_follow hup]
        rw [Workspace.resolve, hshared.here, ← Workspace.resolve, hresolve] at hnode
        obtain ⟨old, new, hold, hnew, hkind⟩ := hplace.there
        obtain rfl := Option.some.inj (hnew.symm.trans hnode)
        rw [hresolve, hold, Node.eq_folder_of_isFolder hkind.symm]
      obtain ⟨⟨found, hfound'⟩, -⟩ := exists_select_doubleStar.1 ⟨_, hfound⟩ folder hfolder'
      exact (mem_select_doubleStar hfound).2 ⟨folder, hfolder', found, hfound', ih hfound' hmore hnames⟩

/-! ### Errors -/

theorem select_eq_error (htree : space.tree.WellFormed) {error : FileError}
    (hreach : space.Reaches (root.below here) location)
    (hfolder : space.tree.node? location = some .folder)
    (h : select space root parts here = .error error) :
    ∃ names, error = { fault := .tooLong, path := root.below names } := by
  induction parts generalizing here location with
  | nil => cases h
  | cons part parts ih =>
    cases part with
    | finish => cases h
    | exact name =>
      rw [select] at h
      rcases bind_eq_error.1 h with hlook | ⟨node, hlook, h⟩
      · exact ⟨_, Workspace.look_eq_error hlook⟩
      · cases parts with
        | nil =>
          dsimp only at h
          split at h <;> split at h <;> cases h
        | cons part parts =>
          obtain hgoes | hgoes := Bool.eq_false_or_eq_true (node.any Node.isFolder)
          · obtain ⟨found, rfl, hfound⟩ : ∃ found, node = some found ∧ found.isFolder = true := by
              cases node with
              | none => cases hgoes
              | some found => exact ⟨found, rfl, hgoes⟩
            obtain rfl := Node.eq_folder_of_isFolder hfound
            obtain ⟨place, hplace, hnode⟩ := Workspace.locate_of_look hlook
            exact ih (Workspace.reaches_of_locate hplace) hnode (by simpa [Node.isFolder] using h)
          · simp [hgoes] at h
    | wildcard pattern =>
      rw [select] at h
      rcases bind_eq_error.1 h with hlocate | ⟨place, hlocate, h⟩
      · rcases hreach.locate_cases with hok | herror
        · rw [hok] at hlocate
          cases hlocate
        · exact ⟨here, Except.error.inj (hlocate.symm.trans herror)⟩
      · obtain rfl : place = location :=
          (locate_eq_resolve hlocate).trans hreach.resolve_eq
        rcases bind_eq_error.1 h with h | ⟨lists, -, h⟩
        · obtain ⟨name, hname, h⟩ := exists_of_mapM_eq_error h
          rw [List.mem_filter, Bool.and_eq_true, Bool.or_eq_true, List.isEmpty_iff] at hname
          obtain ⟨-, -, rfl | hnext⟩ := hname
          · cases h
          · have hnode := FileTree.isFolder_iff.1 hnext
            exact ih (hreach.below htree hnode) hnode h
        · cases h
    | doubleStar =>
      rw [select] at h
      rcases bind_eq_error.1 h with h | ⟨lists, -, h⟩
      · obtain ⟨folder, hmem, h⟩ := exists_of_mapM_eq_error h
        rw [htree.mem_foldersFrom_iff, hreach.resolve_eq] at hmem
        have hnode : space.tree.node? (location ++ folder) = some .folder := by
          rcases hmem with rfl | hnode
          · rwa [List.append_nil]
          · exact hnode
        have hnext := hreach.below htree hnode
        rcases bind_eq_error.1 h with h | ⟨found, -, h⟩
        · exact ih hnext hnode h
        · rcases bind_eq_error.1 h with hlocate | ⟨place, -, h⟩
          · rcases hnext.locate_cases with hok | herror
            · rw [hok] at hlocate
              cases hlocate
            · exact ⟨_, Except.error.inj (hlocate.symm.trans herror)⟩
          · cases h
      · cases h

end Glob

namespace Workspace

variable {places : List Location} {before after : Workspace} {path : Path} {location : Location}

theorem GrowsAt.reaches (h : GrowsAt places before after) (hreach : before.Reaches path location) :
    after.Reaches path location where
  noZero := hreach.noZero
  walk := by
    rw [start, h.here, ← start]
    exact h.walk hreach.walk

theorem GrowsAt.shared (h : GrowsAt places before after) (hreach : before.Reaches path location)
    {node : Node} (hnode : before.tree.node? location = some node) :
    Shared before after path location := by
  obtain ⟨later, hlater, hkind, -⟩ := h.kept hnode
  exact ⟨h.here, hreach, h.reaches hreach, node, later, hnode, hlater, hkind⟩

end Workspace

namespace Pass

open Workspace (GrowsAt RootedAt Shared)

variable {space before after : Workspace} {root file : Path} {base location : Location}
  {exclusions names : List String} {pattern : String} {kept later : List (List String)}
  {options : Options} {files others : List Path} {places : List Location}

theorem mem_scannedBy_of_shared (hbefore : before.tree.WellFormed) (hafter : after.tree.WellFormed)
    (hshared : Shared before after (root.below names) location)
    (hkept : scannedBy before root exclusions pattern = .ok kept)
    (hlater : scannedBy after root exclusions pattern = .ok later) (hnames : names ∈ later) :
    names ∈ kept := by
  obtain ⟨parts, found, hparts, hsearch, rfl⟩ := scannedBy_eq_ok hkept
  obtain ⟨parts', found', hparts', hsearch', rfl⟩ := scannedBy_eq_ok hlater
  obtain rfl := Except.ok.inj (hparts.symm.trans hparts')
  obtain ⟨hnames, hscanned⟩ := List.mem_filter.1 hnames
  obtain ⟨paths, hselect, rfl⟩ := map_eq_ok.1 hsearch
  obtain ⟨paths', hselect', rfl⟩ := map_eq_ok.1 hsearch'
  rw [List.mem_eraseDups] at hnames
  have hmem : names ∈ paths.eraseDups :=
    List.mem_eraseDups.2 (Glob.mem_select_of_shared hbefore hafter hshared hselect hselect' hnames)
  refine List.mem_filter.2 ⟨hmem, ?_⟩
  obtain ⟨found, hfound, hlooks⟩ := (exists_scannedBy hparts).1 ⟨_, hkept⟩
  obtain rfl := Except.ok.inj (hsearch.symm.trans hfound)
  obtain ⟨node, hlook⟩ := hlooks names hmem
  obtain ⟨old, new, hold, hnew, hkind⟩ := hshared.there
  rw [isScanned, Bool.and_eq_true, Workspace.isFile_iff] at hscanned ⊢
  refine ⟨?_, hscanned.2⟩
  obtain ⟨bytes, hbytes⟩ := hscanned.1
  obtain rfl := Option.some.inj ((hshared.second.look_eq hbytes).trans hnew)
  cases old with
  | file bytes => exact ⟨bytes, by rw [hlook, hshared.first.look_eq hlook, hold]⟩
  | folder => cases hkind

theorem exists_file_of_mem_sources (hfiles : sources space root options = .ok files)
    (hfile : file ∈ files) : ∃ location bytes, space.locate file = .ok location ∧
      space.tree.node? location = some (.file bytes) := by
  obtain ⟨-, -, hfound⟩ := sources_eq_ok hfiles
  obtain ⟨pattern, -, kept, names, hscanned, hnames, rfl⟩ := (hfound file).1 hfile
  obtain ⟨parts, found, -, -, rfl⟩ := scannedBy_eq_ok hscanned
  obtain ⟨-, hscanned⟩ := List.mem_filter.1 hnames
  rw [isScanned, Bool.and_eq_true, Workspace.isFile_iff] at hscanned
  obtain ⟨⟨bytes, hlook⟩, -⟩ := hscanned
  obtain ⟨location, hlocate, hnode⟩ := Workspace.locate_of_look hlook
  exact ⟨location, bytes, hlocate, hnode⟩

theorem mem_sources_of_shared (hbefore : before.tree.WellFormed) (hafter : after.tree.WellFormed)
    (hshared : Shared before after file location) (hfiles : sources before root options = .ok files)
    (hothers : sources after root options = .ok others) : file ∈ others → file ∈ files := by
  obtain ⟨-, hkept, hfound⟩ := sources_eq_ok hfiles
  obtain ⟨-, -, hlater⟩ := sources_eq_ok hothers
  rw [hlater, hfound]
  rintro ⟨pattern, hpattern, later, names, hscanned, hnames, rfl⟩
  obtain ⟨kept, hkept⟩ := hkept pattern hpattern
  exact ⟨pattern, hpattern, kept, names, hkept,
    mem_scannedBy_of_shared hbefore hafter hshared hkept hscanned hnames, rfl⟩

theorem shared_of_mem_scannedBy (hgrows : GrowsAt places before after)
    (hbefore : before.RootedAt root base) (hafter : after.RootedAt root base)
    (hlater : scannedBy after root exclusions pattern = .ok later) (hnames : names ∈ later)
    (hplace : after.resolve (root.below names) ∉ places)
    (hup : ".." ∈ (Path.ofText pattern).parts → ∀ location,
      after.tree.node? location = some .folder → before.tree.node? location = some .folder) :
    Shared before after (root.below names) (after.resolve (root.below names)) := by
  obtain ⟨hscanned, parts, hparts, -, hspelled⟩ := leads_of_mem_scannedBy hafter.tree hlater hnames
  rw [isScanned, Bool.and_eq_true, Workspace.isFile_iff] at hscanned
  obtain ⟨⟨bytes, hlook⟩, -⟩ := hscanned
  obtain ⟨place, hlocate, hfile⟩ := Workspace.locate_of_look hlook
  have hreach := Workspace.reaches_of_locate hlocate
  rw [hreach.resolve_eq] at hplace ⊢
  have hold := hgrows.file_of_file hplace hfile
  refine hgrows.shared ?_ hold
  by_cases hparent : ".." ∈ (Path.ofText pattern).parts
  · refine ⟨hreach.noZero, FileTree.walk_of_folders (fun hfolder => hup hparent _ hfolder) ?_⟩
    rw [Workspace.start, ← hgrows.here]
    exact hreach.walk
  · have hdots := Glob.notMem_up hparts hparent hspelled
    obtain rfl : base ++ names = place := by
      rw [← hreach.resolve_eq, hafter.resolve_below, Path.foldl_follow hdots]
    have hbelow := hbefore.reaches.below hbefore.tree hold
    rwa [List.nil_append] at hbelow

theorem mem_sources_of_growsAt (hgrows : GrowsAt places before after)
    (hbefore : before.tree.WellFormed) (hafter : after.tree.WellFormed)
    (hfiles : sources before root options = .ok files)
    (hothers : sources after root options = .ok others)
    (hplace : ∀ file ∈ others, after.resolve file ∉ places)
    (hup : (∃ pattern ∈ options.patterns, ".." ∈ (Path.ofText pattern).parts) → ∀ location,
      after.tree.node? location = some .folder → before.tree.node? location = some .folder) :
    file ∈ others ↔ file ∈ files := by
  obtain ⟨hroot, -, hfound⟩ := sources_eq_ok hfiles
  obtain ⟨hlaterRoot, -, hlater⟩ := sources_eq_ok hothers
  constructor
  · intro hfile
    obtain ⟨pattern, hpattern, later, names, hscanned, hnames, rfl⟩ := (hlater file).1 hfile
    have hrooted := Workspace.rootedAt_of_look hbefore hroot
    have hshared := shared_of_mem_scannedBy hgrows hrooted
      (hgrows.resolve root ▸ Workspace.rootedAt_of_look hafter hlaterRoot) hscanned hnames
      (hplace _ hfile) fun hparent => hup ⟨pattern, hpattern, hparent⟩
    exact mem_sources_of_shared hbefore hafter hshared hfiles hothers hfile
  · intro hfile
    obtain ⟨location, bytes, hlocate, hnode⟩ := exists_file_of_mem_sources hfiles hfile
    have hshared := hgrows.shared (Workspace.reaches_of_locate hlocate) hnode
    exact mem_sources_of_shared hafter hbefore hshared.symm hothers hfiles hfile

/-! ### Scans that fail -/

theorem scannedBy_of_partsOf_error {fault : Glob.Fault} (h : Glob.partsOf pattern = .error fault) :
    scannedBy space root exclusions pattern = .error (.pattern fault) := by
  simp only [scannedBy, selectedBy, h]
  rfl

theorem scannedBy_eq_error (htree : space.tree.WellFormed)
    (hroot : space.look root = .ok (some .folder)) {failure : Failure}
    (h : scannedBy space root exclusions pattern = .error failure) :
    (∃ fault, Glob.partsOf pattern = .error fault ∧ failure = .pattern fault) ∨
    ∃ names, failure = .file { fault := .tooLong, path := root.below names } := by
  cases hparts : Glob.partsOf pattern with
  | error fault =>
    rw [scannedBy_of_partsOf_error hparts] at h
    exact .inl ⟨fault, rfl, (Except.error.inj h).symm⟩
  | ok parts =>
    refine .inr ?_
    rcases bind_eq_error.1 h with hselected | ⟨found, -, h⟩
    · simp only [selectedBy, hparts] at hselected
      obtain ⟨error, hsearch, rfl⟩ := mapError_eq_error.1 hselected
      have hrooted := Workspace.rootedAt_of_look htree hroot
      obtain ⟨names, rfl⟩ := Glob.select_eq_error htree hrooted.reaches hrooted.folder
        (map_eq_error.1 hsearch)
      exact ⟨names, rfl⟩
    · split at h
      · rename_i error hlooks
        obtain rfl := Except.error.inj h
        obtain ⟨names, -, hlook⟩ := exists_of_mapM_eq_error hlooks
        exact ⟨names, congrArg Failure.file (Workspace.look_eq_error hlook)⟩
      · cases h

theorem sources_eq_error (hroot : space.look root = .ok (some .folder)) {failure : Failure} :
    sources space root options = .error failure ↔ ∃ before pattern after,
      options.patterns = before ++ pattern :: after ∧
      (∀ other ∈ before, ∃ kept, scannedBy space root options.excludeDirs other = .ok kept) ∧
      scannedBy space root options.excludeDirs pattern = .error failure := by
  simp only [sources, hroot]
  exact map_eq_error.trans mapM_eq_error

theorem sources_of_partsOf_error {fault : Glob.Fault} (hpattern : pattern ∈ options.patterns)
    (hparts : Glob.partsOf pattern = .error fault) : sources space root options ≠ .ok files := by
  intro h
  obtain ⟨-, hkept, -⟩ := sources_eq_ok h
  obtain ⟨kept, hkept⟩ := hkept pattern hpattern
  obtain ⟨parts, -, hok, -⟩ := scannedBy_eq_ok hkept
  rw [hparts] at hok
  cases hok

end Pass

/-! ### Scans beside records -/

namespace Session.Logged

variable {before after : Session} {root : Path} {options : Options}

theorem isFolder (h : Logged before after) (location : Location) :
    after.space.tree.isFolder location = before.space.tree.isFolder location := by
  have hkind := h.files.folders location
  rw [FileTree.isFolder, FileTree.isFolder]
  generalize after.space.tree.node? location = new at hkind ⊢
  generalize before.space.tree.node? location = old at hkind ⊢
  cases new <;> cases old <;> simp_all

theorem names (h : Logged before after) (folder : Location) :
    after.space.tree.names folder = before.space.tree.names folder := by
  have hnames (tree : FileTree) : tree.names folder = tree.shape.filterMap fun entry =>
      entry.1.getLast?.bind fun name => if entry.1.dropLast = folder then some name else none := by
    rw [FileTree.names, FileTree.shape, List.filterMap_map]
    refine List.filterMap_congr fun entry _ => ?_
    simp only [Function.comp]
    cases entry.1.getLast? <;> rfl
  rw [hnames, hnames, h.shape]

theorem foldersFrom (h : Logged before after) (location : Location) :
    Glob.foldersFrom after.space.tree location = Glob.foldersFrom before.space.tree location := by
  have hfolders (tree : FileTree) : Glob.foldersFrom tree location =
      [] :: tree.shape.filterMap fun entry => (location.isPrefixOf? entry.1).bind fun rest =>
        if rest.isEmpty then none else if entry.2 then some rest else none := by
    rw [Glob.foldersFrom, FileTree.below, FileTree.shape, List.filterMap_map, List.filterMap_filterMap]
    refine congrArg _ (List.filterMap_congr fun entry _ => ?_)
    simp only [Function.comp]
    cases location.isPrefixOf? entry.1 with
    | none => rfl
    | some rest => cases rest <;> rfl
  rw [hfolders, hfolders, h.shape]

theorem select (h : Logged before after) (root : Path) (parts : List Glob.Part) :
    Glob.select after.space root parts = Glob.select before.space root parts := by
  induction parts with
  | nil => rfl
  | cons part parts ih =>
    funext here
    cases part with
    | finish => rfl
    | exact name =>
      have hkind := h.files.look (root.below (here ++ [name]))
      rw [Glob.select, Glob.select, ih]
      generalize after.space.look (root.below (here ++ [name])) = new at hkind ⊢
      generalize before.space.look (root.below (here ++ [name])) = old at hkind ⊢
      rcases new with _ | _ | _ <;> rcases old with _ | _ | _ <;>
        simp_all [Except.map, bind, Except.bind]
    | wildcard pattern =>
      simp only [Glob.select, h.files.locate, h.names, h.isFolder, ih]
    | doubleStar =>
      simp only [Glob.select, h.files.locate, h.files.resolve, h.foldersFrom, ih]

theorem isFile (h : Logged before after) (path : Path) : after.space.isFile path = before.space.isFile path := by
  have hkind := h.files.look path
  rw [Workspace.isFile, Workspace.isFile, Workspace.node?, Workspace.node?]
  generalize after.space.look path = new at hkind ⊢
  generalize before.space.look path = old at hkind ⊢
  rcases new with _ | _ | (_ | _) <;> rcases old with _ | _ | (_ | _) <;>
    simp_all [Except.map, Node.isFolder, Node.isFile]

theorem mapM_look (h : Logged before after) (root : Path) (paths : List (List String)) :
    (paths.mapM fun names => after.space.look (root.below names)).map (List.map (Option.map Node.isFolder)) =
      (paths.mapM fun names => before.space.look (root.below names)).map
        (List.map (Option.map Node.isFolder)) := by
  induction paths with
  | nil => rfl
  | cons names paths ih =>
    have hkind := h.files.look (root.below names)
    rw [List.mapM_cons, List.mapM_cons]
    generalize after.space.look (root.below names) = new at hkind ⊢
    generalize before.space.look (root.below names) = old at hkind ⊢
    generalize (paths.mapM fun names => after.space.look (root.below names)) = news at ih ⊢
    generalize (paths.mapM fun names => before.space.look (root.below names)) = olds at ih ⊢
    cases new <;> cases old <;> cases news <;> cases olds <;>
      simp_all [Except.map, bind, Except.bind, pure, Except.pure]

theorem scannedBy (h : Logged before after) (root : Path) (exclusions : List String) (pattern : String) :
    Pass.scannedBy after.space root exclusions pattern =
      Pass.scannedBy before.space root exclusions pattern := by
  have hscanned : Pass.isScanned after.space root exclusions =
      Pass.isScanned before.space root exclusions := by
    funext names
    rw [Pass.isScanned, Pass.isScanned, h.isFile]
  have hselected : Pass.selectedBy after.space root pattern =
      Pass.selectedBy before.space root pattern := by
    simp only [Pass.selectedBy, Glob.search, h.select]
  rw [Pass.scannedBy, Pass.scannedBy, hselected, hscanned]
  refine bind_congr fun found => ?_
  have hlooks := h.mapM_look root (Pass.inOrder found)
  generalize ((Pass.inOrder found).mapM fun names => after.space.look (root.below names)) = news at hlooks ⊢
  generalize ((Pass.inOrder found).mapM fun names => before.space.look (root.below names)) = olds at hlooks ⊢
  cases news <;> cases olds <;> simp_all [Except.map]

theorem sources (h : Logged before after) (root : Path) (options : Options) :
    Pass.sources after.space root options = Pass.sources before.space root options := by
  have hkind := h.files.look root
  have hscanned : Pass.scannedBy after.space root options.excludeDirs =
      Pass.scannedBy before.space root options.excludeDirs := funext (h.scannedBy root options.excludeDirs)
  rw [Pass.sources, Pass.sources, hscanned]
  generalize after.space.look root = new at hkind ⊢
  generalize before.space.look root = old at hkind ⊢
  rcases new with _ | _ | (_ | _) <;> rcases old with _ | _ | (_ | _) <;>
    simp_all [Except.map, Node.isFolder]

end Session.Logged

end UtilityCss
