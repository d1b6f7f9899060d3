import UtilityCss.Proofs.FoundFiles
import UtilityCss.Watch.Watcher

/-!
# What a watcher handles

A watcher decides from the location of a file alone whether a scan reads it. With patterns for names it is
right about every file, as long as the scan gets to its end. With patterns for paths it is right about a
scanned file when a pattern fits the end of its location with one name for each double star, which is so for
the patterns that have their double stars at the beginning.
-/

namespace UtilityCss

namespace Path

theorem mem_foldl_follow {names : List String} {here : Location} {n : Nat} {name : String}
    (h : name ∈ (names.foldl follow here).drop n) : name ∈ here.drop n ∨ name ∈ names := by
  induction names generalizing here with
  | nil => exact .inl h
  | cons first rest ih =>
    rcases ih h with h | h
    · rw [follow] at h
      split at h
      · exact .inl (((List.dropLast_sublist here).drop n).subset h)
      · rw [List.drop_append, List.mem_append] at h
        rcases h with h | h
        · exact .inl h
        · rw [List.mem_singleton.1 (List.mem_of_mem_drop h)]
          exact .inr List.mem_cons_self
    · exact .inr (List.mem_cons_of_mem first h)

theorem dropLast_subset_of_foldl_follow {names rest : List String} {base : Location}
    (h : names.foldl follow base = base ++ rest) (hlast : names.getLast? ≠ some "..") :
    rest.dropLast ⊆ names.dropLast := by
  rcases List.eq_nil_or_concat' names with rfl | ⟨front, name, rfl⟩
  · have hrest : rest = [] := by simpa using h
    simp [hrest]
  · have hup : name ≠ ".." := by simpa using hlast
    rcases List.eq_nil_or_concat' rest with rfl | ⟨folders, last, rfl⟩
    · simp
    · rw [List.foldl_append, List.foldl_cons, List.foldl_nil, follow, if_neg hup, ← List.append_assoc] at h
      obtain ⟨hfront, -⟩ := List.append_inj' h rfl
      rw [List.dropLast_concat, List.dropLast_concat]
      intro folder hfolder
      have hdrop : folder ∈ (front.foldl follow base).drop base.length := by
        rwa [hfront, List.drop_left]
      simpa using mem_foldl_follow hdrop

theorem foldersFrom_ofLocation (base : Location) (rest : List String) :
    (ofLocation (base ++ rest)).foldersFrom (ofLocation base) = rest.dropLast := by
  have hbelow : (ofLocation (base ++ rest)).below? (ofLocation base) = some rest := by
    rw [below?]
    exact (if_pos rfl).trans (List.isPrefixOf?_eq_some_iff_append_eq.2 rfl)
  rw [foldersFrom, hbelow, Option.getD_some]

end Path

theorem isExcluded_mono {exclusions folders more : List String} (hsub : folders ⊆ more)
    (h : isExcluded exclusions more = false) : isExcluded exclusions folders = false := by
  rw [isExcluded, List.any_eq_false] at h ⊢
  exact fun folder hfolder => h folder (hsub hfolder)

namespace Watcher

variable {Time : Type} {space : Workspace} {root output : Path} {options : Options} {debounce : Time}
  {watcher : Watcher Time} {text : String} {base : Location} {rest : List String}

theorem handlesPath_below (hwatcher : ofPaths space root output options debounce = .ok watcher)
    (hbase : space.resolve root = base) (houtput : base ++ rest ≠ space.resolve output)
    (htext : space.settle (Path.ofText text) = .ok (base ++ rest)) :
    watcher.handlesPath space text =
      if isExcluded options.excludeDirs rest.dropLast then .ok false
      else (Glob.matchesAny (Path.ofLocation (base ++ rest)) options.scanPatterns).mapError .pattern := by
  obtain ⟨_, hroot, hwatcher⟩ := bind_eq_ok.1 hwatcher
  obtain ⟨_, hout, hwatcher⟩ := bind_eq_ok.1 hwatcher
  obtain rfl := Except.ok.inj hwatcher
  obtain rfl := Workspace.settle_eq_ok hroot
  obtain rfl := Workspace.settle_eq_ok hout
  subst hbase
  simp only [handlesPath, htext, handles, houtput, if_false, Path.foldersFrom_ofLocation]
  split <;> rfl

theorem isExcluded_of_isScanned (h : space.RootedAt root base) {exclusions names : List String}
    (hscanned : Pass.isScanned space root exclusions names = true)
    (hrest : base ++ rest = space.resolve (root.below names)) :
    isExcluded exclusions rest.dropLast = false := by
  rw [Pass.isScanned, Bool.and_eq_true, Bool.not_eq_true'] at hscanned
  rw [h.resolve_below] at hrest
  exact isExcluded_mono
    (Path.dropLast_subset_of_foldl_follow hrest.symm (h.getLast?_ne hscanned.1)) hscanned.2

theorem exists_name_of_isScanned (h : space.RootedAt root base) {exclusions names : List String}
    (hscanned : Pass.isScanned space root exclusions names = true) :
    ∃ front name, space.resolve (root.below names) = front ++ [name] ∧ Path.IsName name := by
  obtain ⟨bytes, hlook⟩ := Workspace.isFile_iff.1 (Bool.and_eq_true_iff.1 hscanned).1
  have hnode := Workspace.node?_resolve_of_look hlook
  rcases List.eq_nil_or_concat' (space.resolve (root.below names)) with hnil | ⟨front, name, hconcat⟩
  · rw [hnil] at hnode
    cases hnode
  · exact ⟨front, name, hconcat, h.tree.isName hnode name (by simp [hconcat])⟩

theorem fitsEnd_of_finds (h : space.RootedAt root base) {pattern : String} {file : Path}
    (hfinds : Pass.Finds space root options pattern file)
    (hpattern : Glob.StarsFirst (base.length + 1) pattern) :
    Glob.FitsEnd pattern ("/" :: space.resolve file) := by
  obtain ⟨kept, names, hkept, hnames, rfl⟩ := hfinds
  obtain ⟨-, parts, hparts, hleads, hnamed⟩ := Pass.leads_of_mem_scannedBy h.tree hkept hnames
  rw [h.resolve_below, Path.foldl_follow (Glob.notMem_up hparts hpattern.2.1 hnamed)]
  have hfits : Glob.FitsEnd pattern (("/" :: base) ++ names) :=
    Glob.fitsEnd_of_starsFirst hpattern hparts hleads
  exact hfits

/-- When a scanned file is handled. A pattern that cannot be compared ends the comparison with an error, and a
double star that stands behind another part has to stand for one folder. -/
theorem handlesPath_scanned {files : List Path} {file : Path} (htree : space.tree.WellFormed)
    (hwatcher : ofPaths space root output options debounce = .ok watcher)
    (hpatterns : options.scanPatterns ≠ [])
    (hfiles : Pass.sources space root options = .ok files) (hfile : file ∈ files)
    (hunder : space.resolve root <+: space.resolve file)
    (houtput : space.resolve file ≠ space.resolve output)
    (htext : space.settle (Path.ofText text) = .ok (space.resolve file)) :
    (watcher.handlesPath space text = .ok true ↔
      ∃ before pattern after, options.scanPatterns = before ++ pattern :: after ∧
        (∀ other ∈ before, ¬ Glob.Nameless other) ∧
        Glob.FitsEnd pattern ("/" :: space.resolve file)) ∧
    (∀ before pattern after, options.scanPatterns = before ++ pattern :: after →
      (∀ other ∈ before, ¬ Glob.Nameless other) → Pass.Finds space root options pattern file →
      Glob.StarsFirst ((space.resolve root).length + 1) pattern →
      watcher.handlesPath space text = .ok true) ∧
    ∀ change, watcher.reactsTo space { change := some change, source := text } =
      watcher.handlesPath space text := by
  obtain ⟨hroot, hkept, hfound⟩ := Pass.sources_eq_ok hfiles
  have h := Workspace.rootedAt_of_look htree hroot
  have hsame := options.patterns_of_ne_nil hpatterns
  rw [hsame] at hkept
  obtain ⟨pattern, -, kept, names, hscanned, hnames, rfl⟩ := (hfound file).1 hfile
  obtain ⟨hisScanned, -⟩ := Pass.leads_of_mem_scannedBy htree hscanned hnames
  obtain ⟨rest, hrest⟩ := hunder
  obtain ⟨front, name, hlocation, hname⟩ := exists_name_of_isScanned h hisScanned
  have haccepted : ∀ pattern ∈ options.scanPatterns, ∃ parts, Glob.partsOf pattern = .ok parts := by
    intro pattern hpattern
    obtain ⟨kept, hkept⟩ := hkept pattern hpattern
    obtain ⟨parts, -, hparts, -⟩ := Pass.scannedBy_eq_ok hkept
    exact ⟨parts, hparts⟩
  have hhandles := handlesPath_below hwatcher rfl (hrest ▸ houtput) (hrest ▸ htext)
  rw [isExcluded_of_isScanned h hisScanned hrest, if_neg Bool.false_ne_true, hrest] at hhandles
  have hiff := Glob.matchesAny_eq_true front haccepted hname
  rw [← hlocation] at hiff
  refine ⟨?_, ?_, ?_⟩
  · rw [hhandles, mapError_eq_ok, hiff]
  · intro before pattern after hsplit hbefore hfinds hstars
    rw [hhandles, mapError_eq_ok, hiff]
    exact ⟨before, pattern, after, hsplit, hbefore, fitsEnd_of_finds h hfinds hstars⟩
  · intro change
    have hpaths : Event.paths { change := some change, source := text } = [text] := rfl
    rw [reactsTo, if_pos (by rfl), hpaths, handlesOne]
    cases hresult : watcher.handlesPath space text with
    | error failure => rfl
    | ok handled => cases handled <;> rfl

def project : Workspace where
  tree := { nodes := [
    (["p"], .folder),
    (["p", "src"], .folder),
    (["p", "src", "page.html"], .file ByteArray.empty)] }

def watching (patterns : List String) : Watcher Nat where
  root := ["p"]
  output := ["p", "out.css"]
  options := { scanPatterns := patterns }
  debounce := 0

theorem handlesPath_scanned_page :
    (watching ["**/*.html"]).handlesPath project "p/src/page.html" = .ok true := by
  have hkept : Pass.scannedBy project (Path.ofText "p") Options.defaultExclusions "**/*.html" =
      .ok [["src", "page.html"]] := by decide +kernel
  have hfiles : Pass.sources project (Path.ofText "p") (watching ["**/*.html"]).options =
      .ok [Path.ofText "p/src/page.html"] := by decide +kernel
  refine (@handlesPath_scanned Nat project (Path.ofText "p") (Path.ofText "p/out.css") _ 0 _
    "p/src/page.html" _ _ (by decide) rfl (by decide) hfiles List.mem_cons_self (by decide) (by decide)
    (by decide)).2.1 [] "**/*.html" [] rfl (by simp) ?_ ?_
  · exact ⟨_, _, hkept, List.mem_cons_self, by decide⟩
  · exact ⟨by decide, by decide, 1, by decide, ["*.html"], by decide, by decide⟩

/-- In a scan the double star between two parts stands for no folder as well. -/
theorem scanned_not_handled :
    let watcher := watching ["src/**/*.html"]
    let page := Path.ofText "p/src/page.html"
    ofPaths project (Path.ofText "p") (Path.ofText "p/out.css") watcher.options 0 = .ok watcher ∧
      Pass.sources project (Path.ofText "p") watcher.options = .ok [page] ∧
      project.resolve page ≠ watcher.output ∧
      watcher.handlesPath project "p/src/page.html" = .ok false := by
  refine ⟨rfl, ?_, ?_, ?_⟩ <;> decide +kernel

/-- With patterns for names a scan fails only when something that it asks for is too long. Otherwise the
watcher handles a file exactly when the scan reads it. -/
theorem handlesPath_names (htree : space.tree.WellFormed)
    (hroot : space.look root = .ok (some .folder))
    (hwatcher : ofPaths space root output options debounce = .ok watcher)
    (hpatterns : options.scanPatterns ≠ [])
    (hnames : ∀ pattern ∈ options.scanPatterns, Glob.isPathPattern pattern = false) :
    ((∃ files, Pass.sources space root options = .ok files) ↔
      ∀ pattern ∈ options.scanPatterns, ∀ names,
        Glob.Asks space.tree (space.resolve root) pattern names →
          ∃ node, space.look (root.below names) = .ok node) ∧
    ∀ files, Pass.sources space root options = .ok files → ∀ rest bytes text,
      space.tree.node? (space.resolve root ++ rest) = some (.file bytes) →
      space.resolve root ++ rest ≠ space.resolve output →
      space.settle (Path.ofText text) = .ok (space.resolve root ++ rest) →
      watcher.handlesPath space text =
        .ok (files.any fun file => space.resolve file = space.resolve root ++ rest) := by
  have hsame := options.patterns_of_ne_nil hpatterns
  have hnames' : ∀ pattern ∈ options.patterns, Glob.isPathPattern pattern = false := hsame ▸ hnames
  refine ⟨hsame ▸ Pass.exists_sources_name htree hroot hnames', ?_⟩
  intro files hfiles rest bytes text hnode houtput htext
  have h := Workspace.rootedAt_of_look htree hroot
  rcases List.eq_nil_or_concat' rest with rfl | ⟨folder, name, rfl⟩
  · rw [List.append_nil, h.folder] at hnode
    cases hnode
  · have hread := Pass.mem_sources_name h hnames' hfiles hnode
    have hlast : (Path.ofLocation (space.resolve root ++ (folder ++ [name]))).name = name := by
      simp [Path.name, Path.ofLocation]
    rw [handlesPath_below hwatcher rfl houtput htext, Glob.matchesAny_of_not_isPathPattern _ hnames,
      List.dropLast_concat, hlast]
    have hany : (files.any fun file =>
        decide (space.resolve file = space.resolve root ++ (folder ++ [name]))) =
        (!isExcluded options.excludeDirs folder &&
          options.scanPatterns.any fun pattern => Glob.matchesName pattern name) := by
      rw [Bool.eq_iff_iff, Bool.and_eq_true, Bool.not_eq_true', List.any_eq_true, List.any_eq_true, ← hsame,
        ← hread]
      simp only [decide_eq_true_eq]
    rw [hany]
    cases isExcluded options.excludeDirs folder <;> rfl

theorem handlesPath_names_page :
    Pass.sources project (Path.ofText "p") (watching ["*.html"]).options =
        .ok [Path.ofText "p/src/page.html"] ∧
      (watching ["*.html"]).handlesPath project "p/src/page.html" = .ok true := by
  have hfiles : Pass.sources project (Path.ofText "p") (watching ["*.html"]).options =
      .ok [Path.ofText "p/src/page.html"] := by decide +kernel
  have hnames := (@handlesPath_names Nat project (Path.ofText "p") (Path.ofText "p/out.css") _ 0
    (watching ["*.html"]) (by decide) (by decide) rfl (by decide) (by decide)).2
  refine ⟨hfiles, (hnames _ hfiles ["src", "page.html"] ByteArray.empty "p/src/page.html" (by decide)
    (by decide) (by decide)).trans ?_⟩
  decide

def overlong : String := String.ofList (List.replicate 256 'n')

theorem toList_overlong : overlong.toList = List.replicate 256 'n' := String.toList_ofList

theorem isTooLongName_overlong : Path.isTooLongName overlong = true := by
  have hsize (n : Nat) : (String.ofList (List.replicate n 'n')).utf8ByteSize = n := by
    induction n with
    | zero => rfl
    | succ n ih =>
      rw [List.replicate_succ', String.ofList_append, String.utf8ByteSize_append, ih]
      rfl
  have hoverlong : overlong.utf8ByteSize = 256 := hsize 256
  rw [Path.isTooLongName, hoverlong]
  rfl

/-- A pattern that is too long for a name ends a scan, whatever the other patterns find. -/
theorem names_disagree :
    let watcher := watching [overlong, "*.html"]
    ofPaths project (Path.ofText "p") (Path.ofText "p/out.css") watcher.options 0 = .ok watcher ∧
      project.tree.WellFormed ∧ project.look (Path.ofText "p") = .ok (some .folder) ∧
      (∀ pattern ∈ watcher.options.scanPatterns, Glob.isPathPattern pattern = false) ∧
      (∀ files, Pass.sources project (Path.ofText "p") watcher.options ≠ .ok files) ∧
      watcher.handlesPath project "p/src/page.html" = .ok true := by
  intro watcher
  have hroot : project.look (Path.ofText "p") = .ok (some .folder) := by decide
  have hlong : Glob.isPathPattern overlong = false := by
    rw [Glob.isPathPattern, toList_overlong]
    decide +kernel
  have hpatterns : ∀ pattern ∈ watcher.options.scanPatterns, Glob.isPathPattern pattern = false :=
    List.forall_mem_cons.2 ⟨hlong, List.forall_mem_singleton.2 (by decide)⟩
  refine ⟨rfl, by decide, hroot, hpatterns, fun files hfiles => ?_, ?_⟩
  · have h := Workspace.rootedAt_of_look (by decide) hroot
    have hwildcard : Glob.isWildcard overlong = false := by
      rw [Glob.isWildcard, toList_overlong]
      decide +kernel
    have hmeaningful : Path.isMeaningful overlong = true := by
      rw [Path.isMeaningful, Bool.and_eq_true, decide_eq_true_eq, decide_eq_true_eq,
        ← String.toList_inj.ne, ← String.toList_inj.ne, toList_overlong]
      decide +kernel
    have hzero : '\x00' ∉ overlong.toList := by
      rw [toList_overlong]
      decide +kernel
    obtain ⟨kept, hkept⟩ := (Pass.exists_sources hroot).1 ⟨files, hfiles⟩ overlong List.mem_cons_self
    have hfolder : project.tree.node? (project.resolve (Path.ofText "p") ++ []) = some .folder := by decide
    obtain ⟨node, hnode⟩ := (Pass.exists_scannedBy_name h hlong).1 ⟨kept, hkept⟩ _
      (.spelled hfolder hmeaningful hwildcard)
    exact h.look_tooLong hfolder hzero isTooLongName_overlong node hnode
  · have hpage : (watcher.options.scanPatterns.any fun pattern =>
        Glob.matchesName pattern "page.html") = true :=
      List.any_eq_true.2 ⟨"*.html", List.mem_cons_of_mem _ List.mem_cons_self, by decide⟩
    rw [@handlesPath_below Nat project (Path.ofText "p") (Path.ofText "p/out.css") watcher.options 0 watcher
      "p/src/page.html" ["p"] ["src", "page.html"] rfl rfl (by decide) (by decide),
      Glob.matchesAny_of_not_isPathPattern _ hpatterns]
    exact congrArg (fun fits => (Except.ok fits).mapError Failure.pattern) hpage

end Watcher

end UtilityCss
