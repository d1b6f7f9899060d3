import UtilityCss.Pass.Scan
import UtilityCss.Proofs.PathPatterns

/-!
# What a scan finds

A search finds paths along whose names the parts of its pattern lead. With a pattern for names it finds, in
each folder at and below the root, whatever fits, and the scan then reads the files among it that no excluded
folder leads to. It fails only when something that it asks for has a name or a path that is too long.
-/

namespace UtilityCss

namespace Glob

variable {space : Workspace} {root : Path} {parts : List Part} {here names : List String}
  {found : List (List String)}

theorem select_exact {name : String} (h : select space root (.exact name :: parts) here = .ok found) :
    found = [] ∨ select space root parts (here ++ [name]) = .ok found := by
  obtain ⟨node, -, h⟩ := bind_eq_ok.1 h
  dsimp only at h
  split at h <;> split at h
  · exact .inr h
  · exact .inl (Except.ok.inj h).symm
  · exact .inr h
  · exact .inl (Except.ok.inj h).symm

theorem mem_select_wildcard {pattern : String}
    (h : select space root (.wildcard pattern :: parts) here = .ok found) :
    ∃ location, space.locate (root.below here) = .ok location ∧
      (names ∈ found ↔ ∃ name ∈ space.tree.names location, matchesName pattern name = true ∧
        (parts = [] ∨ space.tree.isFolder (location ++ [name]) = true) ∧
        ∃ more, select space root parts (here ++ [name]) = .ok more ∧ names ∈ more) := by
  obtain ⟨location, hlocate, h⟩ := bind_eq_ok.1 h
  obtain ⟨lists, hlists, h⟩ := bind_eq_ok.1 h
  obtain rfl := Except.ok.inj h
  refine ⟨location, hlocate, ?_⟩
  simp only [List.mem_flatten, mem_mapM hlists, List.mem_filter, Bool.and_eq_true, Bool.or_eq_true,
    List.isEmpty_iff]
  constructor
  · rintro ⟨more, ⟨name, ⟨hmem, hmatches, hfolder⟩, hmore⟩, hnames⟩
    exact ⟨name, hmem, hmatches, hfolder, more, hmore, hnames⟩
  · rintro ⟨name, hmem, hmatches, hfolder, more, hmore, hnames⟩
    exact ⟨more, ⟨name, ⟨hmem, hmatches, hfolder⟩, hmore⟩, hnames⟩

theorem exists_select_doubleStar :
    (∃ found, select space root (.doubleStar :: parts) here = .ok found) ↔
      ∀ folder ∈ foldersFrom space.tree (space.resolve (root.below here)),
        (∃ more, select space root parts (here ++ folder) = .ok more) ∧
          ∃ location, space.locate (root.below (here ++ folder)) = .ok location := by
  simp only [select, bind_eq_ok, Except.ok.injEq, @exists_comm (List (List String)), exists_and_left,
    exists_eq', and_true, exists_mapM_eq_ok, exists_and_right]

theorem mem_select_doubleStar (h : select space root (.doubleStar :: parts) here = .ok found) :
    names ∈ found ↔ ∃ folder ∈ foldersFrom space.tree (space.resolve (root.below here)),
      ∃ more, select space root parts (here ++ folder) = .ok more ∧ names ∈ more := by
  have hall := exists_select_doubleStar.1 ⟨found, h⟩
  obtain ⟨lists, hlists, h⟩ := bind_eq_ok.1 h
  obtain rfl := Except.ok.inj h
  simp only [List.mem_flatten, mem_mapM hlists, bind_eq_ok, Except.ok.injEq]
  constructor
  · rintro ⟨more, ⟨folder, hfolder, _, hmore, _, hlocate, rfl⟩, hnames⟩
    exact ⟨folder, hfolder, _, hmore, hnames⟩
  · rintro ⟨folder, hfolder, more, hmore, hnames⟩
    obtain ⟨-, location, hlocate⟩ := hall folder hfolder
    exact ⟨more, ⟨folder, hfolder, more, hmore, location, hlocate, rfl⟩, hnames⟩

theorem isName_of_mem_foldersFrom (htree : space.tree.WellFormed) {location : Location}
    {folder : List String} (h : folder ∈ foldersFrom space.tree location) :
    ∀ name ∈ folder, Path.IsName name := by
  by_cases hnil : folder = []
  · simp [hnil]
  · simp only [foldersFrom, List.mem_cons, hnil, false_or, List.mem_filterMap, Prod.exists] at h
    obtain ⟨rest, node, hbelow, hrest⟩ := h
    split at hrest
    · obtain rfl := Option.some.inj hrest
      have hnode := htree.isName ((htree.mem_below hnil).1 hbelow)
      exact fun name hname => hnode name (List.mem_append_right location hname)
    · cases hrest

theorem leads_of_select (htree : space.tree.WellFormed)
    (h : select space root parts here = .ok found) (hnames : names ∈ found) :
    ∃ more, names = here ++ more ∧ Leads (fun _ => True) parts more ∧
      ∀ name ∈ more, Path.IsName name ∨ .exact name ∈ parts := by
  induction parts generalizing here found with
  | nil =>
    rw [select] at h
    obtain rfl := Except.ok.inj h
    exact ⟨[], by simpa using hnames, .nil, by simp⟩
  | cons part parts ih =>
    cases part with
    | finish =>
      rw [select] at h
      obtain rfl := Except.ok.inj h
      exact ⟨[], by simpa using hnames, .finish parts, by simp⟩
    | exact name =>
      obtain rfl | h := select_exact h
      · cases hnames
      · obtain ⟨more, rfl, hleads, hmore⟩ := ih h hnames
        refine ⟨name :: more, by simp, .name rfl hleads, ?_⟩
        refine List.forall_mem_cons.2 ⟨.inr List.mem_cons_self, fun other hother => ?_⟩
        exact (hmore other hother).imp_right (List.mem_cons_of_mem _)
    | wildcard pattern =>
      obtain ⟨location, -, hiff⟩ := mem_select_wildcard h
      obtain ⟨name, hname, hmatches, -, found, hfound, hnames⟩ := hiff.1 hnames
      obtain ⟨more, rfl, hleads, hmore⟩ := ih hfound hnames
      obtain ⟨node, hnode⟩ := htree.mem_names.1 hname
      refine ⟨name :: more, by simp, .name hmatches hleads, ?_⟩
      refine List.forall_mem_cons.2 ⟨.inl (htree.isName hnode name (by simp)), fun other hother => ?_⟩
      exact (hmore other hother).imp_right (List.mem_cons_of_mem _)
    | doubleStar =>
      obtain ⟨folder, hfolder, found, hfound, hnames⟩ := (mem_select_doubleStar h).1 hnames
      obtain ⟨more, rfl, hleads, hmore⟩ := ih hfound hnames
      refine ⟨folder ++ more, by simp, .doubleStar trivial hleads, fun name hname => ?_⟩
      rcases List.mem_append.1 hname with hname | hname
      · exact .inl (isName_of_mem_foldersFrom htree hfolder name hname)
      · exact (hmore name hname).imp_right (List.mem_cons_of_mem _)

theorem notMem_up {pattern : String} (hparts : partsOf pattern = .ok parts)
    (hup : ".." ∉ (Path.ofText pattern).parts) (hnames : ∀ name ∈ names, Path.IsName name ∨ .exact name ∈ parts) :
    ".." ∉ names := by
  intro hmem
  rcases hnames ".." hmem with hname | hexact
  · exact hname.notUp rfl
  · exact hup (mem_parts_of_exact hparts hexact)

/-! ### Patterns for names -/

theorem anchor_of_notMem {cs : List Char} (h : '/' ∉ cs) : Anchor.ofChars cs = .relative := by
  unfold Anchor.ofChars
  split
  · simp at h
  · simp at h
  · simp at h
  · rfl

theorem partsOf_of_not_isPathPattern {pattern : String} (h : isPathPattern pattern = false) :
    (Path.isMeaningful pattern = false ∧ partsOf pattern = .ok []) ∨
    (Path.isMeaningful pattern = true ∧ isWildcard pattern = false ∧
      partsOf pattern = .ok [.exact pattern]) ∨
    (isWildcard pattern = true ∧ partsOf pattern = .ok [.wildcard pattern]) := by
  obtain ⟨hstars, hslash⟩ := Bool.or_eq_false_iff.1 h
  rw [← Bool.not_eq_true, Text.mentions_singleton] at hslash
  have habsolute : (Path.ofText pattern).isAbsolute = false := by
    rw [Path.isAbsolute, Path.ofText, anchor_of_notMem hslash]
    rfl
  have hlast : pattern.toList.getLast? ≠ some '/' := fun hlast => hslash (List.mem_of_getLast? hlast)
  have hpart : partOf pattern =
      .ok (if isWildcard pattern then .wildcard pattern else .exact pattern) := by
    have hne : pattern ≠ "**" := by
      rintro rfl
      revert hstars
      decide
    rw [partOf, if_neg hne, hstars]
    cases isWildcard pattern <;> rfl
  simp only [partsOf, habsolute, parts_of_not_isPathPattern h, hlast, Bool.false_eq_true, if_false]
  cases hmeaningful : Path.isMeaningful pattern with
  | false => exact .inl ⟨rfl, rfl⟩
  | true =>
    rw [if_pos rfl, List.mapM_cons, List.mapM_nil, hpart]
    cases hwildcard : isWildcard pattern with
    | false => exact .inr (.inl ⟨rfl, rfl, rfl⟩)
    | true => exact .inr (.inr ⟨rfl, rfl⟩)

variable {base : Location}

theorem select_exact_nil {name : String} :
    select space root [.exact name] here = .ok found ↔
      ∃ node, space.look (root.below (here ++ [name])) = .ok node ∧
        found = if node.isSome then [here ++ [name]] else [] := by
  rw [select, bind_eq_ok]
  refine exists_congr fun node => and_congr_right fun _ => ?_
  cases node <;> simp [select, eq_comm]

theorem select_wildcard_nil {pattern : String} :
    select space root [.wildcard pattern] here = .ok found ↔
      ∃ location, space.locate (root.below here) = .ok location ∧
        found = ((space.tree.names location).filter (matchesName pattern)).map
          fun name => here ++ [name] := by
  rw [select, bind_eq_ok]
  refine exists_congr fun location => and_congr_right fun _ => ?_
  have hmapM (names : List String) : (names.mapM fun name => select space root [] (here ++ [name])) =
      .ok (names.map fun name => [here ++ [name]]) := by
    simp only [select]
    exact List.mapM_pure
  simp only [List.isEmpty_nil, Bool.true_or, Bool.and_true, hmapM, bind, Except.bind, Except.ok.injEq]
  rw [← List.flatMap_def, ← List.map_eq_flatMap, @eq_comm _ found]

theorem exists_search (h : space.RootedAt root base) :
    (∃ found, search space root parts = .ok found) ↔
      ∀ folder, space.tree.node? (base ++ folder) = some .folder →
        (∃ more, select space root parts folder = .ok more) ∧
          ∃ node, space.look (root.below folder) = .ok node := by
  simp only [search, map_eq_ok, @exists_comm (List (List String)), exists_eq', and_true,
    exists_and_left, exists_select_doubleStar, h.resolve_below, List.foldl_nil, List.nil_append,
    h.tree.mem_foldersFrom h.folder]
  refine forall₂_congr fun folder hfolder => and_congr_right fun _ => ⟨?_, ?_⟩
  · rintro ⟨location, hlocate⟩
    exact ⟨_, Workspace.look_of_locate hlocate⟩
  · rintro ⟨node, hlook⟩
    exact ⟨_, h.locate_below hfolder hlook⟩

theorem mem_search (h : space.RootedAt root base) (hsearch : search space root parts = .ok found) :
    names ∈ found ↔ ∃ folder, space.tree.node? (base ++ folder) = some .folder ∧
      ∃ more, select space root parts folder = .ok more ∧ names ∈ more := by
  obtain ⟨paths, hselect, rfl⟩ := map_eq_ok.1 hsearch
  simp only [List.mem_eraseDups, mem_select_doubleStar hselect, h.resolve_below, List.foldl_nil,
    h.tree.mem_foldersFrom h.folder, List.nil_append]

/-- What a search for a name asks for, as seen from the root: each folder, and in each folder the name that
the pattern spells out or those that it fits. -/
inductive Asks (tree : FileTree) (base : Location) (pattern : String) : List String → Prop
  | folder {folder : List String} (hfolder : tree.node? (base ++ folder) = some .folder) :
      Asks tree base pattern folder
  | spelled {folder : List String} (hfolder : tree.node? (base ++ folder) = some .folder)
      (hmeaningful : Path.isMeaningful pattern = true) (hspelled : isWildcard pattern = false) :
      Asks tree base pattern (folder ++ [pattern])
  | fitting {folder : List String} {name : String} {node : Node}
      (hnode : tree.node? (base ++ (folder ++ [name])) = some node)
      (hwildcard : isWildcard pattern = true) (hmatches : matchesName pattern name = true) :
      Asks tree base pattern (folder ++ [name])

variable {pattern name : String}

theorem asks_of_mem_search (h : space.RootedAt root base) (hpattern : isPathPattern pattern = false)
    (hparts : partsOf pattern = .ok parts) (hsearch : search space root parts = .ok found)
    (hnames : names ∈ found) : Asks space.tree base pattern names := by
  obtain ⟨folder, hfolder, more, hmore, hnames⟩ := (mem_search h hsearch).1 hnames
  obtain ⟨-, hkind⟩ | ⟨hmeaningful, hspelled, hkind⟩ | ⟨hwildcard, hkind⟩ :=
      partsOf_of_not_isPathPattern hpattern <;>
    obtain rfl := Except.ok.inj (hparts.symm.trans hkind)
  · rw [select, Except.ok.injEq] at hmore
    subst hmore
    rw [List.mem_singleton] at hnames
    exact hnames ▸ .folder hfolder
  · obtain ⟨node, -, rfl⟩ := select_exact_nil.1 hmore
    split at hnames
    · rw [List.mem_singleton] at hnames
      exact hnames ▸ .spelled hfolder hmeaningful hspelled
    · cases hnames
  · obtain ⟨location, hlocate, rfl⟩ := select_wildcard_nil.1 hmore
    obtain rfl := Except.ok.inj ((h.locate_below hfolder (Workspace.look_of_locate hlocate)).symm.trans
      hlocate)
    obtain ⟨name, hname, rfl⟩ := List.mem_map.1 hnames
    obtain ⟨hmem, hmatches⟩ := List.mem_filter.1 hname
    obtain ⟨node, hnode⟩ := h.tree.mem_names.1 hmem
    rw [List.append_assoc] at hnode
    exact .fitting hnode hwildcard hmatches

theorem mem_search_of_matchesName (h : space.RootedAt root base)
    (hpattern : isPathPattern pattern = false) (hparts : partsOf pattern = .ok parts)
    (hsearch : search space root parts = .ok found) {folder : List String} {node : Node}
    (hnode : space.tree.node? (base ++ (folder ++ [name])) = some node)
    (hmatches : matchesName pattern name = true) : folder ++ [name] ∈ found := by
  have hname : Path.IsName name := h.tree.isName hnode name (by simp)
  have hfolder : space.tree.node? (base ++ folder) = some .folder := by
    rw [← List.append_assoc] at hnode
    exact h.tree.folder_of_append hnode (List.cons_ne_nil name [])
  obtain ⟨⟨more, hmore⟩, -⟩ := (exists_search h).1 ⟨found, hsearch⟩ folder hfolder
  refine (mem_search h hsearch).2 ⟨folder, hfolder, more, hmore, ?_⟩
  obtain ⟨hmeaningful, -⟩ | ⟨-, hspelled, hkind⟩ | ⟨-, hkind⟩ := partsOf_of_not_isPathPattern hpattern
  · rw [isMeaningful_of_matchesName hname hmatches] at hmeaningful
    cases hmeaningful
  · obtain rfl := Except.ok.inj (hparts.symm.trans hkind)
    obtain rfl := (matchesName_of_not_isWildcard hspelled name).1 hmatches
    obtain ⟨found, hlook, rfl⟩ := select_exact_nil.1 hmore
    obtain rfl := Except.ok.inj ((h.look_below hnode hlook).symm.trans hlook)
    exact List.mem_singleton.2 rfl
  · obtain rfl := Except.ok.inj (hparts.symm.trans hkind)
    obtain ⟨location, hlocate, rfl⟩ := select_wildcard_nil.1 hmore
    obtain rfl := Except.ok.inj ((h.locate_below hfolder (Workspace.look_of_locate hlocate)).symm.trans
      hlocate)
    refine List.mem_map.2 ⟨name, List.mem_filter.2 ⟨h.tree.mem_names.2 ⟨node, ?_⟩, hmatches⟩, rfl⟩
    rwa [List.append_assoc]

end Glob

namespace Pass
open Glob

variable {space : Workspace} {root : Path} {exclusions : List String} {pattern : String}
  {kept : List (List String)} {names : List String}

theorem selectedBy_eq_ok {found : List (List String)} : selectedBy space root pattern = .ok found ↔
    ∃ parts, Glob.partsOf pattern = .ok parts ∧ Glob.search space root parts = .ok found := by
  rw [selectedBy]
  cases Glob.partsOf pattern with
  | error fault => simp
  | ok parts => simp [mapError_eq_ok]

theorem scannedBy_eq_ok (h : scannedBy space root exclusions pattern = .ok kept) :
    ∃ parts found, Glob.partsOf pattern = .ok parts ∧ Glob.search space root parts = .ok found ∧
      kept = found.filter (isScanned space root exclusions) := by
  obtain ⟨found, hfound, h⟩ := bind_eq_ok.1 h
  obtain ⟨parts, hparts, hsearch⟩ := selectedBy_eq_ok.1 hfound
  split at h
  · cases h
  · exact ⟨parts, found, hparts, hsearch, (Except.ok.inj h).symm⟩

theorem leads_of_mem_selectedBy (htree : space.tree.WellFormed) {found : List (List String)}
    (h : selectedBy space root pattern = .ok found) (hnames : names ∈ found) :
    ∃ parts, Glob.partsOf pattern = .ok parts ∧ Glob.Leads (fun _ => True) (.doubleStar :: parts) names ∧
      ∀ name ∈ names, Path.IsName name ∨ .exact name ∈ parts := by
  obtain ⟨parts, hparts, hsearch⟩ := selectedBy_eq_ok.1 h
  obtain ⟨paths, hselect, rfl⟩ := map_eq_ok.1 hsearch
  obtain ⟨more, rfl, hleads, hmore⟩ := Glob.leads_of_select htree hselect (List.mem_eraseDups.1 hnames)
  exact ⟨parts, hparts, hleads, fun name hname => by simpa using hmore name hname⟩

theorem leads_of_mem_scannedBy (htree : space.tree.WellFormed)
    (h : scannedBy space root exclusions pattern = .ok kept) (hnames : names ∈ kept) :
    isScanned space root exclusions names = true ∧ ∃ parts, Glob.partsOf pattern = .ok parts ∧
      Glob.Leads (fun _ => True) (.doubleStar :: parts) names ∧
      ∀ name ∈ names, Path.IsName name ∨ .exact name ∈ parts := by
  obtain ⟨parts, found, hparts, hsearch, rfl⟩ := scannedBy_eq_ok h
  obtain ⟨hfound, hscanned⟩ := List.mem_filter.1 hnames
  exact ⟨hscanned, leads_of_mem_selectedBy htree (selectedBy_eq_ok.2 ⟨parts, hparts, hsearch⟩) hfound⟩

variable {options : Options} {files : List Path}

/-- A pattern brings a file into a scan. -/
def Finds (space : Workspace) (root : Path) (options : Options) (pattern : String) (file : Path) : Prop :=
  ∃ kept names, scannedBy space root options.excludeDirs pattern = .ok kept ∧ names ∈ kept ∧
    file = root.below names

theorem sources_eq_ok (h : sources space root options = .ok files) :
    space.look root = .ok (some .folder) ∧
      (∀ pattern ∈ options.patterns,
        ∃ kept, scannedBy space root options.excludeDirs pattern = .ok kept) ∧
      ∀ file, file ∈ files ↔ ∃ pattern ∈ options.patterns, Finds space root options pattern file := by
  rw [sources] at h
  split at h
  · cases h
  · cases h
  · cases h
  · rename_i hroot
    obtain ⟨found, hfound, rfl⟩ := map_eq_ok.1 h
    refine ⟨hroot, exists_mapM_eq_ok.1 ⟨found, hfound⟩, fun file => ?_⟩
    simp only [List.mem_map, List.mem_eraseDups, List.mem_flatten, mem_mapM hfound]
    constructor
    · rintro ⟨names, ⟨kept, ⟨pattern, hpattern, hkept⟩, hnames⟩, rfl⟩
      exact ⟨pattern, hpattern, kept, names, hkept, hnames, rfl⟩
    · rintro ⟨pattern, hpattern, kept, names, hkept, hnames, rfl⟩
      exact ⟨names, ⟨kept, ⟨pattern, hpattern, hkept⟩, hnames⟩, rfl⟩

theorem exists_sources (hroot : space.look root = .ok (some .folder)) :
    (∃ files, sources space root options = .ok files) ↔ ∀ pattern ∈ options.patterns,
      ∃ kept, scannedBy space root options.excludeDirs pattern = .ok kept := by
  simp only [sources, hroot, map_eq_ok, exists_comm, exists_and_left, exists_eq', and_true,
    exists_mapM_eq_ok]

theorem mem_insertInOrder {parts : List String} {found : List (List String)} :
    names ∈ insertInOrder parts found ↔ names = parts ∨ names ∈ found := by
  induction found with
  | nil => simp [insertInOrder]
  | cons first rest ih =>
    rw [insertInOrder]
    split
    · simp only [List.mem_cons, ih]
      exact or_left_comm
    · simp only [List.mem_cons]

theorem mem_inOrder {found : List (List String)} : names ∈ inOrder found ↔ names ∈ found := by
  induction found with
  | nil => simp [inOrder]
  | cons first rest ih =>
    rw [inOrder, List.foldr_cons, mem_insertInOrder, List.mem_cons, ← ih, inOrder]

theorem exists_scannedBy {parts : List Glob.Part} (hparts : Glob.partsOf pattern = .ok parts) :
    (∃ kept, scannedBy space root exclusions pattern = .ok kept) ↔
      ∃ found, Glob.search space root parts = .ok found ∧
        ∀ names ∈ found, ∃ node, space.look (root.below names) = .ok node := by
  simp only [scannedBy, selectedBy, hparts]
  cases hsearch : Glob.search space root parts with
  | error error => simp [Except.mapError, bind, Except.bind]
  | ok found =>
    have hlooks : (∀ names ∈ found, ∃ node, space.look (root.below names) = .ok node) ↔
        ∃ nodes, ((inOrder found).mapM fun names => space.look (root.below names)) = .ok nodes := by
      simp only [exists_mapM_eq_ok, mem_inOrder]
    simp only [Except.mapError, bind, Except.bind, Except.ok.injEq, exists_eq_left', hlooks]
    cases (inOrder found).mapM fun names => space.look (root.below names) <;> simp

/-! ### Patterns for names -/

variable {base : Location}

theorem exists_scannedBy_name (h : space.RootedAt root base) (hpattern : isPathPattern pattern = false) :
    (∃ kept, scannedBy space root exclusions pattern = .ok kept) ↔
      ∀ names, Asks space.tree base pattern names →
        ∃ node, space.look (root.below names) = .ok node := by
  have hkinds := partsOf_of_not_isPathPattern hpattern
  obtain ⟨parts, hparts⟩ : ∃ parts, partsOf pattern = .ok parts := by
    rcases hkinds with ⟨-, hkind⟩ | ⟨-, -, hkind⟩ | ⟨-, hkind⟩ <;> exact ⟨_, hkind⟩
  rw [exists_scannedBy hparts]
  constructor
  · rintro ⟨found, hsearch, hlooks⟩ names hasks
    cases hasks with
    | folder hfolder => exact ((exists_search h).1 ⟨found, hsearch⟩ names hfolder).2
    | @spelled folder hfolder hmeaningful hspelled =>
      obtain ⟨⟨more, hmore⟩, -⟩ := (exists_search h).1 ⟨found, hsearch⟩ folder hfolder
      rw [hmeaningful, hspelled] at hkinds
      obtain rfl : parts = [.exact pattern] := by simpa [hparts] using hkinds.symm
      obtain ⟨node, hlook, -⟩ := select_exact_nil.1 hmore
      exact ⟨node, hlook⟩
    | fitting hnode hwildcard hmatches =>
      exact hlooks _ (mem_search_of_matchesName h hpattern hparts hsearch hnode hmatches)
  · intro hasks
    have hsearch : ∃ found, search space root parts = .ok found := by
      refine (exists_search h).2 fun folder hfolder => ⟨?_, hasks folder (.folder hfolder)⟩
      obtain ⟨-, hkind⟩ | ⟨hmeaningful, hspelled, hkind⟩ | ⟨-, hkind⟩ := hkinds <;>
        obtain rfl := Except.ok.inj (hparts.symm.trans hkind)
      · exact ⟨_, select.eq_1 ..⟩
      · obtain ⟨node, hlook⟩ := hasks _ (.spelled hfolder hmeaningful hspelled)
        exact ⟨_, select_exact_nil.2 ⟨node, hlook, rfl⟩⟩
      · obtain ⟨node, hlook⟩ := hasks folder (.folder hfolder)
        exact ⟨_, select_wildcard_nil.2 ⟨_, h.locate_below hfolder hlook, rfl⟩⟩
    obtain ⟨found, hsearch⟩ := hsearch
    exact ⟨found, hsearch, fun names hnames =>
      hasks names (asks_of_mem_search h hpattern hparts hsearch hnames)⟩

theorem mem_scannedBy_name (h : space.RootedAt root base) (hpattern : isPathPattern pattern = false)
    (hkept : scannedBy space root exclusions pattern = .ok kept) :
    names ∈ kept ↔ (∃ bytes, space.tree.node? (base ++ names) = some (.file bytes)) ∧
      (∃ folder name, names = folder ++ [name] ∧ matchesName pattern name = true) ∧
      isExcluded exclusions names.dropLast = false := by
  have hasks := (exists_scannedBy_name h hpattern).1 ⟨kept, hkept⟩
  obtain ⟨parts, found, hparts, hsearch, rfl⟩ := scannedBy_eq_ok hkept
  rw [List.mem_filter, isScanned, Bool.and_eq_true, Bool.not_eq_true', ← and_assoc, ← and_assoc,
    Workspace.isFile_iff]
  refine and_congr_left fun _ => ⟨?_, ?_⟩
  · rintro ⟨hnames, bytes, hlook⟩
    have hnode := Workspace.node?_resolve_of_look hlook
    rw [h.resolve_below] at hnode
    cases asks_of_mem_search h hpattern hparts hsearch hnames with
    | folder hfolder =>
      have hother := h.look_below hfolder hlook
      rw [hlook] at hother
      cases hother
    | @spelled folder hfolder hmeaningful hspelled =>
      have hlast := h.getLast?_ne (Workspace.isFile_iff.2 ⟨bytes, hlook⟩)
      have hup : ".." ∉ folder ++ [pattern] := by
        rw [List.mem_append, not_or, List.mem_singleton]
        refine ⟨fun hmem => ?_, fun heq => hlast (by rw [List.getLast?_concat, ← heq])⟩
        exact (h.tree.isName hfolder ".." (List.mem_append_right base hmem)).notUp rfl
      rw [Path.foldl_follow hup] at hnode
      exact ⟨⟨bytes, hnode⟩, folder, pattern, rfl, (matchesName_of_not_isWildcard hspelled _).2 rfl⟩
    | @fitting folder name node hother hwildcard hmatches =>
      have hsame := h.look_below hother hlook
      rw [hlook] at hsame
      exact ⟨⟨bytes, hother.trans (Except.ok.inj hsame).symm⟩, folder, name, rfl, hmatches⟩
  · rintro ⟨⟨bytes, hnode⟩, folder, name, rfl, hmatches⟩
    have hmem := mem_search_of_matchesName h hpattern hparts hsearch hnode hmatches
    obtain ⟨node, hlook⟩ := hasks _ (asks_of_mem_search h hpattern hparts hsearch hmem)
    exact ⟨hmem, bytes, h.look_below hnode hlook⟩

theorem exists_sources_name (htree : space.tree.WellFormed)
    (hroot : space.look root = .ok (some .folder))
    (hnames : ∀ pattern ∈ options.patterns, isPathPattern pattern = false) :
    (∃ files, sources space root options = .ok files) ↔ ∀ pattern ∈ options.patterns, ∀ names,
      Asks space.tree (space.resolve root) pattern names →
        ∃ node, space.look (root.below names) = .ok node := by
  rw [exists_sources hroot]
  exact forall₂_congr fun pattern hpattern =>
    exists_scannedBy_name (Workspace.rootedAt_of_look htree hroot) (hnames pattern hpattern)

theorem mem_sources_name (h : space.RootedAt root base)
    (hnames : ∀ pattern ∈ options.patterns, isPathPattern pattern = false)
    (hfiles : sources space root options = .ok files) {folder : List String} {name : String}
    {bytes : ByteArray} (hnode : space.tree.node? (base ++ (folder ++ [name])) = some (.file bytes)) :
    (∃ file ∈ files, space.resolve file = base ++ (folder ++ [name])) ↔
      isExcluded options.excludeDirs folder = false ∧
        ∃ pattern ∈ options.patterns, matchesName pattern name = true := by
  obtain ⟨-, hkept, hfound⟩ := sources_eq_ok hfiles
  constructor
  · rintro ⟨file, hfile, hresolve⟩
    obtain ⟨pattern, hpattern, kept, names, hscanned, hmem, rfl⟩ := (hfound file).1 hfile
    obtain ⟨⟨_, hother⟩, ⟨front, last, rfl, hmatches⟩, hexcluded⟩ :=
      (mem_scannedBy_name h (hnames pattern hpattern) hscanned).1 hmem
    rw [h.resolve_below_of_node? hother] at hresolve
    obtain ⟨rfl, hlast⟩ := List.append_inj' (List.append_cancel_left hresolve) rfl
    obtain rfl := List.singleton_inj.1 hlast
    rw [List.dropLast_concat] at hexcluded
    exact ⟨hexcluded, pattern, hpattern, hmatches⟩
  · rintro ⟨hexcluded, pattern, hpattern, hmatches⟩
    obtain ⟨kept, hscanned⟩ := hkept pattern hpattern
    have hmem : folder ++ [name] ∈ kept :=
      (mem_scannedBy_name h (hnames pattern hpattern) hscanned).2
        ⟨⟨bytes, hnode⟩, ⟨folder, name, rfl, hmatches⟩, by rwa [List.dropLast_concat]⟩
    exact ⟨_, (hfound _).2 ⟨pattern, hpattern, kept, _, hscanned, hmem, rfl⟩,
      h.resolve_below_of_node? hnode⟩

end Pass

end UtilityCss
