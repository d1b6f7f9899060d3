import UtilityCss.Proofs.PassOutcomes
import UtilityCss.Proofs.Regeneration

/-!
# Crawling a project

A scan takes the patterns in turn, and what each selects in the order of the paths. It passes over a path that
it has read, that leads to no file or that an excluded folder leads to, and reads the files at the others as it
meets them. However much the patterns overlap, every path is read once, and what the scan gives depends only on
which paths the patterns select together.
-/

namespace UtilityCss

theorem Path.below_injective (root : Path) : Function.Injective root.below := fun names others h => by
  rw [below, below, Path.mk.injEq] at h
  exact List.append_cancel_left h.2

namespace Pass

/-- How far a scan has come: the paths that are not read again, the files in the order in which they were read,
and the classes found in them. -/
structure Crawl where
  seen : List Path := []
  reads : List Path := []
  classes : List String := []
  deriving DecidableEq

variable {space : Workspace} {root : Path} {options : Options} {names : List String}
  {visited found : List (List String)} {pattern : String}

namespace Crawl

def visit (space : Workspace) (root : Path) (options : Options) (crawl : Crawl) (names : List String) :
    Except Failure Crawl :=
  let path := root.below names
  if path ∈ crawl.seen then .ok crawl
  else do
    let node ← (space.look path).mapError .file
    if node.any Node.isFile && !isExcluded options.excludeDirs names.dropLast then
      let classes ← (fileClasses space options.scanner path).mapError .file
      return {
        seen := crawl.seen ++ [path]
        reads := crawl.reads ++ [path]
        classes := Text.orderedSet (crawl.classes ++ classes) }
    else return crawl

def follow (space : Workspace) (root : Path) (options : Options) (crawl : Crawl) (pattern : String) :
    Except Failure Crawl := do
  let found ← selectedBy space root pattern
  (inOrder found).foldlM (visit space root options) crawl

end Crawl

def crawl (space : Workspace) (root : Path) (options : Options) : Except Failure Crawl :=
  match space.look root with
  | .error error => .error (.file error)
  | .ok none => .error (.missingRoot root)
  | .ok (some (.file _)) => .error (.rootIsFile root)
  | .ok (some .folder) => options.patterns.foldlM (Crawl.follow space root options) {}

/-! ### One path after the other -/

def scanned (space : Workspace) (root : Path) (options : Options) (visited : List (List String)) :
    List (List String) :=
  (visited.filter (isScanned space root options.excludeDirs)).eraseDups

theorem mem_scanned : names ∈ scanned space root options visited ↔
    names ∈ visited ∧ isScanned space root options.excludeDirs names = true := by
  rw [scanned, List.mem_eraseDups, List.mem_filter]

theorem scanned_concat : scanned space root options (visited ++ [names]) =
    if isScanned space root options.excludeDirs names = true ∧ names ∉ scanned space root options visited then
      scanned space root options visited ++ [names]
    else scanned space root options visited := by
  rw [scanned, List.filter_append]
  cases hscanned : isScanned space root options.excludeDirs names with
  | false => simp [hscanned, scanned]
  | true =>
    rw [List.filter_cons_of_pos hscanned, List.filter_nil, eraseDups_concat]
    simp [hscanned, scanned]

theorem nodup_scanned : (scanned space root options visited).Nodup := nodup_eraseDups _

def classesIn (space : Workspace) (options : Options) (path : Path) : List String :=
  (fileClasses space options.scanner path).toOption.getD []

theorem fileClasses_of_isFile {path : Path} (h : space.isFile path = true) :
    fileClasses space options.scanner path = .ok (classesIn space options path) := by
  obtain ⟨bytes, hlook⟩ := Workspace.isFile_iff.1 h
  obtain ⟨location, hlocate, hnode⟩ := Workspace.locate_of_look hlook
  rw [classesIn, fileClasses, Workspace.readLenient, Workspace.read_eq_ok.2 ⟨location, hlocate, hnode⟩]
  rfl

def Crawl.after (space : Workspace) (root : Path) (options : Options) (visited : List (List String)) : Crawl :=
  let paths := (scanned space root options visited).map root.below
  { seen := paths, reads := paths, classes := Text.orderedSet (paths.flatMap (classesIn space options)) }

theorem isFile_of_isScanned {exclusions : List String} (h : isScanned space root exclusions names = true) :
    space.isFile (root.below names) = true :=
  (Bool.and_eq_true_iff.1 h).1

theorem mem_seen_after : root.below names ∈ (Crawl.after space root options visited).seen ↔
    names ∈ scanned space root options visited :=
  List.mem_map_of_injective root.below_injective

theorem Crawl.after_concat (h : names ∉ scanned space root options visited)
    (hscanned : isScanned space root options.excludeDirs names = true) :
    after space root options (visited ++ [names]) =
      let crawl := after space root options visited
      { seen := crawl.seen ++ [root.below names]
        reads := crawl.reads ++ [root.below names]
        classes := Text.orderedSet (crawl.classes ++ classesIn space options (root.below names)) } := by
  simp only [after, scanned_concat, h, hscanned, not_false_eq_true, and_self, if_true, List.map_append,
    List.map_singleton, List.flatMap_append, List.flatMap_singleton, Crawl.mk.injEq, true_and]
  exact Text.orderedSet_congr fun text => by simp only [List.mem_append, Text.mem_orderedSet]

theorem Crawl.after_concat_of_passed (h : isScanned space root options.excludeDirs names = false ∨
    names ∈ scanned space root options visited) :
    after space root options (visited ++ [names]) = after space root options visited := by
  have hpassed : ¬ (isScanned space root options.excludeDirs names = true ∧
      names ∉ scanned space root options visited) := fun ⟨hscanned, hnew⟩ =>
    h.elim (fun hnot => Bool.false_ne_true (hnot.symm.trans hscanned)) hnew
  rw [after, scanned_concat, if_neg hpassed, ← after]

theorem Crawl.visit_after : visit space root options (after space root options visited) names =
    ((space.look (root.below names)).mapError .file).map fun _ =>
      after space root options (visited ++ [names]) := by
  rw [visit]
  by_cases hseen : names ∈ scanned space root options visited
  · obtain ⟨-, hscanned⟩ := mem_scanned.1 hseen
    obtain ⟨bytes, hlook⟩ := Workspace.isFile_iff.1 (isFile_of_isScanned hscanned)
    rw [if_pos (mem_seen_after.2 hseen), hlook, after_concat_of_passed (.inr hseen)]
    rfl
  · rw [if_neg (mt mem_seen_after.1 hseen)]
    cases hlook : space.look (root.below names) with
    | error error => rfl
    | ok node =>
      have hisScanned : isScanned space root options.excludeDirs names =
          (node.any Node.isFile && !isExcluded options.excludeDirs names.dropLast) := by
        rw [isScanned, Workspace.isFile, Workspace.node?, hlook]
      cases hscanned : isScanned space root options.excludeDirs names with
      | false =>
        simp only [Except.mapError, bind, Except.bind, ← hisScanned, hscanned, Bool.false_eq_true, if_false,
          Except.map, after_concat_of_passed (.inl hscanned)]
        rfl
      | true =>
        simp only [Except.mapError, bind, Except.bind, ← hisScanned, hscanned, if_true, Except.map,
          fileClasses_of_isFile (isFile_of_isScanned hscanned), after_concat hseen hscanned]
        rfl

theorem Crawl.foldlM_visit {paths : List (List String)} :
    paths.foldlM (visit space root options) (after space root options visited) =
      ((paths.mapM fun names => space.look (root.below names)).mapError .file).map fun _ =>
        after space root options (visited ++ paths) := by
  induction paths generalizing visited with
  | nil => rw [List.append_nil]; rfl
  | cons names paths ih =>
    rw [List.foldlM_cons, List.mapM_cons, visit_after]
    cases space.look (root.below names) with
    | error error => rfl
    | ok node =>
      simp only [Except.mapError, Except.map, bind, Except.bind, ih]
      cases paths.mapM fun names => space.look (root.below names) with
      | error error => rfl
      | ok nodes => simp [pure, Except.pure]

/-! ### One pattern after the other -/

def asked (space : Workspace) (root : Path) (pattern : String) : Except Failure (List (List String)) := do
  let found ← selectedBy space root pattern
  let _ ← ((inOrder found).mapM fun names => space.look (root.below names)).mapError .file
  return found

theorem asked_eq_ok : asked space root pattern = .ok found ↔ selectedBy space root pattern = .ok found ∧
    ∀ names ∈ found, ∃ node, space.look (root.below names) = .ok node := by
  simp only [asked, bind_eq_ok, mapError_eq_ok, pure, Except.pure, Except.ok.injEq, ← @mem_inOrder _ found,
    ← exists_mapM_eq_ok]
  constructor
  · rintro ⟨_, hselected, nodes, hnodes, rfl⟩
    exact ⟨hselected, nodes, hnodes⟩
  · rintro ⟨hselected, nodes, hnodes⟩
    exact ⟨found, hselected, nodes, hnodes, rfl⟩

theorem scannedBy_eq_map (exclusions : List String) : scannedBy space root exclusions = fun pattern =>
    (asked space root pattern).map fun found => found.filter (isScanned space root exclusions) := by
  funext pattern
  rw [scannedBy, asked]
  cases selectedBy space root pattern with
  | error failure => rfl
  | ok found =>
    simp only [bind, Except.bind]
    cases (inOrder found).mapM fun names => space.look (root.below names) <;> rfl

namespace Crawl

theorem follow_after : follow space root options (after space root options visited) pattern =
    (asked space root pattern).map fun found => after space root options (visited ++ inOrder found) := by
  rw [follow, asked]
  cases selectedBy space root pattern with
  | error failure => rfl
  | ok found =>
    simp only [bind, Except.bind, foldlM_visit]
    cases (inOrder found).mapM fun names => space.look (root.below names) <;> rfl

theorem foldlM_follow {patterns : List String} :
    patterns.foldlM (follow space root options) (after space root options visited) =
      (patterns.mapM (asked space root)).map fun found =>
        after space root options (visited ++ found.flatMap inOrder) := by
  induction patterns generalizing visited with
  | nil => rw [List.mapM_nil, List.foldlM_nil]; simp [pure, Except.pure, Except.map]
  | cons pattern patterns ih =>
    rw [List.foldlM_cons, List.mapM_cons, follow_after]
    cases asked space root pattern with
    | error failure => rfl
    | ok found =>
      simp only [Except.map, bind, Except.bind, ih]
      cases patterns.mapM (asked space root) with
      | error failure => rfl
      | ok others => simp [pure, Except.pure]

end Crawl

variable {crawled : Crawl}

theorem crawl_of_folder (hroot : space.look root = .ok (some .folder)) : crawl space root options =
    (options.patterns.mapM (asked space root)).map fun found =>
      Crawl.after space root options (found.flatMap inOrder) := by
  simp only [crawl, hroot]
  exact @Crawl.foldlM_follow space root options [] _

theorem sources_of_folder (hroot : space.look root = .ok (some .folder)) : sources space root options =
    (options.patterns.mapM (asked space root)).map fun found =>
      (found.flatMap fun paths => paths.filter (isScanned space root options.excludeDirs)).eraseDups.map
        root.below := by
  simp only [sources, hroot, scannedBy_eq_map, mapM_map]
  cases options.patterns.mapM (asked space root) with
  | error failure => rfl
  | ok found => simp only [Except.map, List.flatMap_def]

theorem fileClasses_of_mem_after {file : Path} (h : file ∈ (Crawl.after space root options visited).reads) :
    fileClasses space options.scanner file = .ok (classesIn space options file) := by
  obtain ⟨names, hnames, rfl⟩ := List.mem_map.1 h
  exact fileClasses_of_isFile (isFile_of_isScanned (mem_scanned.1 hnames).2)

theorem filesClasses_after (visited : List (List String)) :
    filesClasses space options.scanner (Crawl.after space root options visited).reads =
      .ok (Crawl.after space root options visited).classes :=
  map_eq_ok.2 ⟨_, mapM_eq_ok_map fun _ => fileClasses_of_mem_after,
    congrArg Text.orderedSet List.flatMap_def.symm⟩

theorem projectClasses_eq_crawl (space : Workspace) (root : Path) (options : Options) :
    projectClasses space root options =
      (crawl space root options).map fun crawled => (crawled.classes, crawled.reads.length) := by
  by_cases hroot : space.look root = .ok (some .folder)
  · rw [projectClasses, sources_of_folder hroot, crawl_of_folder hroot]
    cases options.patterns.mapM (asked space root) with
    | error failure => rfl
    | ok found =>
      have hperm : ((found.flatMap fun paths =>
            paths.filter (isScanned space root options.excludeDirs)).eraseDups.map root.below).Perm
          (Crawl.after space root options (found.flatMap inOrder)).reads := by
        refine List.Perm.map _ ((List.perm_ext_iff_of_nodup (nodup_eraseDups _) nodup_scanned).2 fun names => ?_)
        simp only [mem_scanned, List.mem_eraseDups, List.mem_flatMap, List.mem_filter, mem_inOrder]
        exact ⟨fun ⟨paths, hpaths, hnames, hscanned⟩ => ⟨⟨paths, hpaths, hnames⟩, hscanned⟩,
          fun ⟨⟨paths, hpaths, hnames⟩, hscanned⟩ => ⟨paths, hpaths, hnames, hscanned⟩⟩
      have hclasses := filesClasses_congr (filesClasses_after (found.flatMap inOrder))
        (fun file => hperm.mem_iff) fun _ _ => rfl
      simp only [Except.map, bind, Except.bind, hclasses, hperm.length_eq]
  · rw [projectClasses, sources, crawl]
    generalize space.look root = node at hroot
    rcases node with error | _ | _ | _
    · rfl
    · rfl
    · rfl
    · exact absurd rfl hroot

/-! ### What is read -/

def Selects (space : Workspace) (root : Path) (patterns names : List String) : Prop :=
  ∃ pattern ∈ patterns, ∃ found, selectedBy space root pattern = .ok found ∧ names ∈ found

theorem Selects.congr {patterns others : List String} (h : ∀ pattern, pattern ∈ others ↔ pattern ∈ patterns)
    (names : List String) : Selects space root others names ↔ Selects space root patterns names :=
  exists_congr fun pattern => and_congr_left fun _ => h pattern

theorem Selects.notMem_up (htree : space.tree.WellFormed) {patterns : List String}
    (hpatterns : ∀ pattern ∈ patterns, ".." ∉ (Path.ofText pattern).parts)
    (h : Selects space root patterns names) : ".." ∉ names := by
  obtain ⟨pattern, hpattern, found, hfound, hnames⟩ := h
  obtain ⟨parts, hparts, -, hnamed⟩ := leads_of_mem_selectedBy htree hfound hnames
  exact Glob.notMem_up hparts (hpatterns pattern hpattern) hnamed

theorem exists_crawl (hroot : space.look root = .ok (some .folder))
    (haccepted : ∀ pattern ∈ options.patterns, ∃ found, selectedBy space root pattern = .ok found) :
    (∃ crawled, crawl space root options = .ok crawled) ↔
      ∀ names, Selects space root options.patterns names → ∃ node, space.look (root.below names) = .ok node := by
  simp only [crawl_of_folder hroot, map_eq_ok, @exists_comm Crawl, exists_and_left, exists_eq', and_true,
    exists_mapM_eq_ok, asked_eq_ok]
  constructor
  · rintro h names ⟨pattern, hpattern, found, hfound, hnames⟩
    obtain ⟨paths, hpaths, hlooks⟩ := h pattern hpattern
    obtain rfl := Except.ok.inj (hfound.symm.trans hpaths)
    exact hlooks names hnames
  · intro h pattern hpattern
    obtain ⟨found, hfound⟩ := haccepted pattern hpattern
    exact ⟨found, hfound, fun names hnames => h names ⟨pattern, hpattern, found, hfound, hnames⟩⟩

theorem crawl_eq_error (hroot : space.look root = .ok (some .folder))
    (haccepted : ∀ pattern ∈ options.patterns, ∃ found, selectedBy space root pattern = .ok found)
    {failure : Failure} (h : crawl space root options = .error failure) :
    ∃ names error, Selects space root options.patterns names ∧ space.look (root.below names) = .error error ∧
      failure = .file error := by
  rw [crawl_of_folder hroot, map_eq_error] at h
  obtain ⟨pattern, hpattern, hasked⟩ := exists_of_mapM_eq_error h
  rcases bind_eq_error.1 hasked with hselected | ⟨found, hfound, hasked⟩
  · obtain ⟨found, hfound⟩ := haccepted pattern hpattern
    rw [hfound] at hselected
    cases hselected
  · rcases bind_eq_error.1 hasked with hlooks | ⟨_, -, hasked⟩
    · obtain ⟨error, hnodes, rfl⟩ := mapError_eq_error.1 hlooks
      obtain ⟨names, hnames, hlook⟩ := exists_of_mapM_eq_error hnodes
      exact ⟨names, error, ⟨pattern, hpattern, found, hfound, mem_inOrder.1 hnames⟩, hlook, rfl⟩
    · cases hasked

/-- A scan has read the files that the patterns select and no excluded folder leads to, every path once, and found
the classes in them. -/
structure Crawl.Union (space : Workspace) (root : Path) (options : Options) (crawled : Crawl) : Prop where
  once : crawled.reads.Nodup
  selected : ∀ file, file ∈ crawled.reads ↔ ∃ names, Selects space root options.patterns names ∧
    file = root.below names ∧ space.isFile file = true ∧
    isExcluded options.excludeDirs names.dropLast = false
  readable : ∀ file ∈ crawled.reads, ∃ classes, fileClasses space options.scanner file = .ok classes
  ordered : crawled.classes.Pairwise (· < ·)
  found : ∀ text, text ∈ crawled.classes ↔ ∃ file ∈ crawled.reads, ∃ classes,
    fileClasses space options.scanner file = .ok classes ∧ text ∈ classes

theorem union_of_crawl (hroot : space.look root = .ok (some .folder))
    (h : crawl space root options = .ok crawled) : crawled.Union space root options := by
  rw [crawl_of_folder hroot] at h
  obtain ⟨found, hfound, rfl⟩ := map_eq_ok.1 h
  have hselects (names : List String) :
      names ∈ found.flatMap inOrder ↔ Selects space root options.patterns names := by
    simp only [List.mem_flatMap, mem_inOrder, mem_mapM hfound]
    constructor
    · rintro ⟨paths, ⟨pattern, hpattern, hpaths⟩, hnames⟩
      exact ⟨pattern, hpattern, paths, (asked_eq_ok.1 hpaths).1, hnames⟩
    · rintro ⟨pattern, hpattern, paths, hpaths, hnames⟩
      obtain ⟨others, hothers⟩ := exists_mapM_eq_ok.1 ⟨found, hfound⟩ pattern hpattern
      obtain rfl := Except.ok.inj (hpaths.symm.trans (asked_eq_ok.1 hothers).1)
      exact ⟨paths, ⟨pattern, hpattern, hothers⟩, hnames⟩
  refine ⟨nodup_scanned.map root.below_injective, fun file => ?_,
    fun file hfile => ⟨_, fileClasses_of_mem_after hfile⟩, Text.pairwise_orderedSet _, fun text => ?_⟩
  · simp only [Crawl.after, List.mem_map, mem_scanned, hselects, isScanned, Bool.and_eq_true, Bool.not_eq_true']
    constructor
    · rintro ⟨names, ⟨hselected, hfile, hfolders⟩, rfl⟩
      exact ⟨names, hselected, rfl, hfile, hfolders⟩
    · rintro ⟨names, hselected, rfl, hfile, hfolders⟩
      exact ⟨names, ⟨hselected, hfile, hfolders⟩, rfl⟩
  · simp only [Crawl.after, Text.mem_orderedSet, List.mem_flatMap]
    refine exists_congr fun file => and_congr_right fun hfile => ?_
    simp only [fileClasses_of_mem_after hfile, Except.ok.injEq, exists_eq_left']

theorem Crawl.Union.congr {others : Options} {other : Crawl} (h : crawled.Union space root options)
    (hother : other.Union space root others) (hscanner : others.scanner = options.scanner)
    (hreads : ∀ file, file ∈ other.reads ↔ file ∈ crawled.reads) :
    other.classes = crawled.classes ∧ other.reads.length = crawled.reads.length := by
  refine ⟨hother.ordered.eq_of_mem_iff h.ordered fun text => ?_,
    ((List.perm_ext_iff_of_nodup hother.once h.once).2 hreads).length_eq⟩
  rw [hother.found, h.found, hscanner]
  exact exists_congr fun file => and_congr_left fun _ => hreads file

theorem resolve_of_selects (htree : space.tree.WellFormed)
    (hpatterns : ∀ pattern ∈ options.patterns, ".." ∉ (Path.ofText pattern).parts)
    (h : Selects space root options.patterns names) :
    space.resolve (root.below names) = space.resolve root ++ names :=
  (Workspace.resolve_below space root names).trans (Path.foldl_follow (h.notMem_up htree hpatterns) _)

/-- A scan has read the selected files below the root that no excluded folder leads to, each of them once and no
others. -/
def Crawl.ReadsBelow (space : Workspace) (root : Path) (options : Options) (crawled : Crawl) : Prop :=
  (crawled.reads.map space.resolve).Nodup ∧ ∀ location, location ∈ crawled.reads.map space.resolve ↔
    ∃ names bytes, location = space.resolve root ++ names ∧ space.tree.node? location = some (.file bytes) ∧
      Selects space root options.patterns names ∧ isExcluded options.excludeDirs names.dropLast = false

theorem Crawl.Union.readsBelow (h : crawled.Union space root options) (htree : space.tree.WellFormed)
    (hroot : space.look root = .ok (some .folder))
    (hlooks : ∀ names, Selects space root options.patterns names →
      ∃ node, space.look (root.below names) = .ok node)
    (hpatterns : ∀ pattern ∈ options.patterns, ".." ∉ (Path.ofText pattern).parts) :
    crawled.ReadsBelow space root options := by
  have hrooted := Workspace.rootedAt_of_look htree hroot
  constructor
  · refine h.once.map_on fun file hfile other hother heq => ?_
    obtain ⟨names, hnames, rfl, -⟩ := (h.selected file).1 hfile
    obtain ⟨others, hothers, rfl, -⟩ := (h.selected other).1 hother
    rw [resolve_of_selects htree hpatterns hnames, resolve_of_selects htree hpatterns hothers] at heq
    rw [List.append_cancel_left heq]
  · intro location
    rw [List.mem_map]
    constructor
    · rintro ⟨file, hfile, rfl⟩
      obtain ⟨names, hnames, rfl, hisFile, hfolders⟩ := (h.selected file).1 hfile
      obtain ⟨bytes, hlook⟩ := Workspace.isFile_iff.1 hisFile
      exact ⟨names, bytes, resolve_of_selects htree hpatterns hnames,
        Workspace.node?_resolve_of_look hlook, hnames, hfolders⟩
    · rintro ⟨names, bytes, rfl, hnode, hnames, hfolders⟩
      obtain ⟨node, hlook⟩ := hlooks names hnames
      refine ⟨root.below names, (h.selected _).2 ⟨names, hnames, rfl, ?_, hfolders⟩,
        resolve_of_selects htree hpatterns hnames⟩
      exact Workspace.isFile_iff.2 ⟨bytes, hrooted.look_below hnode hlook⟩

theorem projectClasses_congr {patterns : List String} {other : Crawl}
    (hroot : space.look root = .ok (some .folder)) (h : crawl space root options = .ok crawled)
    (hother : crawl space root { options with scanPatterns := patterns } = .ok other)
    (hsame : ∀ names, space.isFile (root.below names) = true →
      (Selects space root { options with scanPatterns := patterns }.patterns names ↔
        Selects space root options.patterns names)) :
    projectClasses space root { options with scanPatterns := patterns } = projectClasses space root options := by
  have hunion := union_of_crawl hroot h
  have hothers := union_of_crawl hroot hother
  obtain ⟨hclasses, hlength⟩ := hunion.congr hothers rfl fun file => by
    rw [hothers.selected, hunion.selected]
    refine exists_congr fun names => ?_
    constructor
    · rintro ⟨hnames, rfl, hfile, hfolders⟩
      exact ⟨(hsame names hfile).1 hnames, rfl, hfile, hfolders⟩
    · rintro ⟨hnames, rfl, hfile, hfolders⟩
      exact ⟨(hsame names hfile).2 hnames, rfl, hfile, hfolders⟩
  rw [projectClasses_eq_crawl, projectClasses_eq_crawl, h, hother, Except.map, Except.map, hclasses, hlength]

theorem mem_patterns_congr {patterns : List String}
    (h : ∀ pattern, pattern ∈ patterns ↔ pattern ∈ options.scanPatterns) (pattern : String) :
    pattern ∈ { options with scanPatterns := patterns }.patterns ↔ pattern ∈ options.patterns := by
  by_cases hnil : options.scanPatterns = []
  · have hpatterns : patterns = [] := List.eq_nil_iff_forall_not_mem.2 fun other hother => by
      rw [h, hnil] at hother
      cases hother
    rw [Options.patterns, Options.patterns, hpatterns, hnil]
  · have hpatterns : patterns ≠ [] := by
      obtain ⟨other, hother⟩ := List.exists_mem_of_ne_nil _ hnil
      exact List.ne_nil_of_mem ((h other).2 hother)
    rw [Options.patterns_of_ne_nil _ hpatterns, Options.patterns_of_ne_nil _ hnil, h]

theorem exists_crawl_congr {patterns : List String} (hroot : space.look root = .ok (some .folder))
    (hsame : ∀ pattern, pattern ∈ { options with scanPatterns := patterns }.patterns ↔
      pattern ∈ options.patterns)
    (h : crawl space root options = .ok crawled) :
    ∃ other, crawl space root { options with scanPatterns := patterns } = .ok other := by
  rw [crawl_of_folder hroot] at h ⊢
  obtain ⟨found, hfound, -⟩ := map_eq_ok.1 h
  obtain ⟨others, hothers⟩ := exists_mapM_eq_ok.2 fun pattern hpattern =>
    exists_mapM_eq_ok.1 ⟨found, hfound⟩ pattern ((hsame pattern).1 hpattern)
  exact ⟨_, map_eq_ok.2 ⟨others, hothers, rfl⟩⟩

/-- If every pattern can be searched for, a scan gets to its end exactly when all that the patterns select can be
asked for. It has then read the files among that, every path once, whatever the order of the patterns and however
often they stand there. -/
theorem crawl_reads_selected_once (htree : space.tree.WellFormed)
    (hroot : space.look root = .ok (some .folder))
    (haccepted : ∀ pattern ∈ options.patterns, ∃ found, selectedBy space root pattern = .ok found) :
    projectClasses space root options =
        (crawl space root options).map (fun crawled => (crawled.classes, crawled.reads.length)) ∧
      ((∃ crawled, crawl space root options = .ok crawled) ↔ ∀ names,
        Selects space root options.patterns names → ∃ node, space.look (root.below names) = .ok node) ∧
      (∀ failure, crawl space root options = .error failure → ∃ names error,
        Selects space root options.patterns names ∧ space.look (root.below names) = .error error ∧
          failure = .file error) ∧
      ∀ crawled, crawl space root options = .ok crawled →
        crawled.Union space root options ∧
        ((∀ pattern ∈ options.patterns, ".." ∉ (Path.ofText pattern).parts) →
          crawled.ReadsBelow space root options) ∧
        (∀ patterns, (∀ pattern, pattern ∈ patterns ↔ pattern ∈ options.scanPatterns) →
          projectClasses space root { options with scanPatterns := patterns } =
            projectClasses space root options) ∧
        ∀ patterns other, crawl space root { options with scanPatterns := patterns } = .ok other →
          (∀ names, space.isFile (root.below names) = true →
            (Selects space root { options with scanPatterns := patterns }.patterns names ↔
              Selects space root options.patterns names)) →
          projectClasses space root { options with scanPatterns := patterns } =
            projectClasses space root options := by
  refine ⟨projectClasses_eq_crawl space root options, exists_crawl hroot haccepted,
    fun failure => crawl_eq_error hroot haccepted, fun crawled hcrawled => ?_⟩
  have hunion := union_of_crawl hroot hcrawled
  refine ⟨hunion, hunion.readsBelow htree hroot ((exists_crawl hroot haccepted).1 ⟨crawled, hcrawled⟩), ?_, ?_⟩
  · intro patterns hpatterns
    obtain ⟨other, hother⟩ := exists_crawl_congr hroot (mem_patterns_congr hpatterns) hcrawled
    exact projectClasses_congr hroot hcrawled hother fun names _ =>
      Selects.congr (mem_patterns_congr hpatterns) names
  · intro patterns other hother hsame
    exact projectClasses_congr hroot hcrawled hother hsame

def pages : Workspace where
  tree := { nodes := [
    (["p"], .folder),
    (["p", "page.html"], .file "<p class=\"vibe-flex\">".toUTF8),
    (["p", "bin"], .folder),
    (["p", "bin", "page.html"], .file "<p class=\"vibe-block\">".toUTF8)] }

theorem crawl_reads_selected_once_page : ∃ crawled,
    crawl pages (Path.ofText "p") { scanPatterns := ["*.html", "page.*"] } = .ok crawled ∧
      crawled.reads = [Path.ofText "p/page.html"] ∧ (crawled.reads.map pages.resolve).Nodup ∧
      projectClasses pages (Path.ofText "p") { scanPatterns := ["page.*", "*.html", "page.*"] } =
        .ok (["vibe-flex"], 1) := by
  have hcrawl : crawl pages (Path.ofText "p") { scanPatterns := ["*.html", "page.*"] } =
      .ok {
        seen := [Path.ofText "p/page.html"]
        reads := [Path.ofText "p/page.html"]
        classes := ["vibe-flex"] } := by
    decide +kernel
  have haccepted : ∀ pattern ∈ ({ scanPatterns := ["*.html", "page.*"] } : Options).patterns,
      ∃ found, selectedBy pages (Path.ofText "p") pattern = .ok found :=
    List.forall_mem_cons.2 ⟨⟨[["page.html"], ["bin", "page.html"]], by decide +kernel⟩,
      List.forall_mem_singleton.2 ⟨[["page.html"], ["bin", "page.html"]], by decide +kernel⟩⟩
  obtain ⟨hclasses, -, -, hcrawled⟩ := crawl_reads_selected_once (by decide) (by decide) haccepted
  obtain ⟨-, hinside, hsame, -⟩ := hcrawled _ hcrawl
  refine ⟨_, hcrawl, rfl, (hinside (by decide)).1, ?_⟩
  have hpatterns : ∀ pattern, pattern ∈ ["page.*", "*.html", "page.*"] ↔ pattern ∈ ["*.html", "page.*"] := by
    simp [or_comm, or_left_comm]
  rw [hsame _ hpatterns, hclasses, hcrawl]
  rfl

/-! ### Paths that lead up -/

def detour : Nat → List String
  | 0 => ["p"]
  | n + 1 => "p" :: ".." :: detour n

theorem detour_ne_nil (n : Nat) : detour n ≠ [] := by
  cases n <;> exact List.cons_ne_nil _ _

theorem utf8ByteSize_detour (n : Nat) (rest : List String) :
    ("/".intercalate (detour n ++ rest)).utf8ByteSize = 5 * n + ("/".intercalate ("p" :: rest)).utf8ByteSize := by
  induction n with
  | zero => rw [detour, List.singleton_append]; omega
  | succ n ih =>
    obtain ⟨first, more, hmore⟩ : ∃ first more, detour n ++ rest = first :: more :=
      List.exists_cons_of_ne_nil (List.append_ne_nil_of_left_ne_nil (detour_ne_nil n) rest)
    rw [detour, List.cons_append, List.cons_append, String.intercalate_cons_cons, hmore,
      String.intercalate_cons_cons, ← hmore]
    simp only [String.utf8ByteSize_append, ih]
    have hp : "p".utf8ByteSize = 1 := rfl
    have hup : "..".utf8ByteSize = 2 := rfl
    have hslash : "/".utf8ByteSize = 1 := rfl
    omega

theorem walk_detour {tree : FileTree} (hfolder : tree.node? ["p"] = some .folder) (n : Nat) :
    tree.walk [] (detour n) = .ok ["p"] := by
  have hin : tree.step [] "p" = .ok ["p"] := rfl
  have hout : tree.step ["p"] ".." = .ok [] := by
    rw [FileTree.step, hfolder]
    rfl
  induction n with
  | zero => rfl
  | succ n ih =>
    rw [FileTree.walk, detour, List.foldlM_cons, hin]
    exact (congrArg (· >>= fun here => (detour n).foldlM tree.step here) hout).trans ih

def winding (n : Nat) : Path := { parts := detour n }

theorem noZero_detour {n : Nat} {part : String} (h : part ∈ detour n) : '\x00' ∉ part.toList := by
  induction n with
  | zero => exact List.mem_singleton.1 h ▸ by decide
  | succ n ih =>
    rcases List.mem_cons.1 h with rfl | h
    · decide
    · rcases List.mem_cons.1 h with rfl | h
      · decide
      · exact ih h

theorem fault?_winding_below (n : Nat) {names : List String}
    (hnames : ∀ name ∈ names, '\x00' ∉ name.toList) : ((winding n).below names).fault? =
      if Path.greatestSize < 5 * n + ("/".intercalate ("p" :: names)).utf8ByteSize then some .tooLong
      else none := by
  have hzero : (winding n).hasZeroByte = false := Path.hasZeroByte_eq_false.2 fun _ => noZero_detour
  have htext : ((winding n).below names).text = "/".intercalate (detour n ++ names) := by
    rw [Path.text, if_neg (by simp [winding, Path.below, detour_ne_nil])]
    exact String.empty_append
  rw [Path.fault?, Path.hasZeroByte_below hzero hnames, htext, utf8ByteSize_detour]
  rfl

def page : Workspace where
  tree := { nodes := [
    (["p"], .folder),
    (["p", "page.html"], .file "<p class=\"vibe-flex\">".toUTF8)] }

theorem rootedAt_winding {n : Nat} (hn : 5 * n + 1 ≤ Path.greatestSize) : page.RootedAt (winding n) ["p"] where
  tree := by decide
  located := by
    have hfault := fault?_winding_below n (List.forall_mem_nil _)
    rw [Path.below, List.append_nil, String.intercalate_singleton] at hfault
    rw [if_neg (by exact Nat.not_lt.2 hn)] at hfault
    exact Workspace.locate_of_walk hfault (walk_detour (by decide) n)
  folder := by decide

theorem crawl_winding {n : Nat} (hn : 5 * n + 1 ≤ Path.greatestSize) (hlong : Path.greatestSize < 5 * n + 11) :
    page.look (winding n) = .ok (some .folder) ∧ (∃ found, selectedBy page (winding n) "*.html" = .ok found) ∧
      ∀ crawled, crawl page (winding n) { scanPatterns := ["*.html"] } ≠ .ok crawled := by
  have h := rootedAt_winding hn
  have hparts : Glob.partsOf "*.html" = .ok [.wildcard "*.html"] := by decide
  have hroot : page.look (winding n) = .ok (some .folder) := by
    rw [Workspace.look_of_locate h.located, h.folder]
  have hbelow : (winding n).below [] = winding n := by
    rw [Path.below, List.append_nil]
  have hsearch : ∃ found, Glob.search page (winding n) [.wildcard "*.html"] = .ok found := by
    refine (Glob.exists_search h).2 fun folder hfolder => ?_
    obtain rfl : folder = [] := by
      have hmem := (h.tree.node?_eq_some (List.cons_ne_nil _ _)).1 hfolder
      simpa [page] using hmem
    rw [hbelow]
    exact ⟨⟨_, Glob.select_wildcard_nil.2 ⟨["p"], (congrArg _ hbelow).trans h.located, rfl⟩⟩, _, hroot⟩
  obtain ⟨found, hsearch⟩ := hsearch
  have hselected : selectedBy page (winding n) "*.html" = .ok found :=
    selectedBy_eq_ok.2 ⟨_, hparts, hsearch⟩
  refine ⟨hroot, ⟨found, hselected⟩, fun crawled hcrawled => ?_⟩
  have hnode : page.tree.node? (["p"] ++ ([] ++ ["page.html"])) = some (.file "<p class=\"vibe-flex\">".toUTF8) := by
    decide
  have hmem : ["page.html"] ∈ found :=
    Glob.mem_search_of_matchesName h (by decide) hparts hsearch hnode (by decide)
  have hlooks := (exists_crawl hroot (List.forall_mem_singleton.2 ⟨found, hselected⟩)).1 ⟨crawled, hcrawled⟩
  obtain ⟨node, hlook⟩ := hlooks ["page.html"] ⟨_, List.mem_singleton.2 rfl, found, hselected, hmem⟩
  have hfault := @fault?_winding_below n ["page.html"] (by decide)
  rw [if_pos (by exact hlong)] at hfault
  rw [Workspace.look, Workspace.locate_of_fault? hfault] at hlook
  cases hlook

/-- A pattern that leads up out of the root selects what is beside it, and one that leads up below the root the
same page twice. Where the way to the root is long, a page may be out of reach. -/
theorem crawl_leads_up :
    let root := Path.ofText "p"
    let text := "<p class=\"vibe-flex\">".toUTF8
    let beside : Workspace := { tree := { nodes := [(["p"], .folder), (["page.html"], .file text)] } }
    let nested : Workspace := { tree := { nodes :=
      [(["p"], .folder), (["p", "a"], .folder), (["p", "page.html"], .file text)] } }
    (projectClasses beside root { scanPatterns := ["../*.html"] } = .ok (["vibe-flex"], 1) ∧
      ∀ names bytes, beside.tree.node? (beside.resolve root ++ names) ≠ some (.file bytes)) ∧
    (∃ crawled, crawl nested root { scanPatterns := ["*.html", "a/../*.html"] } = .ok crawled ∧
      crawled.reads.map nested.resolve = [["p", "page.html"], ["p", "page.html"]]) ∧
    page.look (winding 818) = .ok (some .folder) ∧
      (∃ found, selectedBy page (winding 818) "*.html" = .ok found) ∧
      ∀ crawled, crawl page (winding 818) { scanPatterns := ["*.html"] } ≠ .ok crawled := by
  intro root text beside nested
  refine ⟨⟨by decide +kernel, fun names bytes hnode => ?_⟩, ⟨{
      seen := [root.below ["page.html"], root.below ["a", "..", "page.html"]]
      reads := [root.below ["page.html"], root.below ["a", "..", "page.html"]]
      classes := ["vibe-flex"] }, by decide +kernel, by decide⟩, crawl_winding (by decide) (by decide)⟩
  have hresolve : beside.resolve root = ["p"] := by decide
  have htree : beside.tree.WellFormed := by decide
  rw [hresolve] at hnode
  have hmem := (htree.node?_eq_some (List.cons_ne_nil "p" names)).1 hnode
  simp [beside] at hmem

end Pass

end UtilityCss
