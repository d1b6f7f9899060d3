import UtilityCss.Proofs.PassOutcomes
import UtilityCss.Proofs.Regeneration

/-!
# A project of one file

A style sheet can be made from a text or from the files of a project. When a project has one file, the two
agree: the file is found, by whatever ways the patterns lead to it, decoded to the text that was encoded, and
searched for classes as its extension says. The base sheet is the same unless the project keeps one of its own.
Patterns with double dots may look into other folders, and a base sheet that is a log file has grown by the
records of the pass when it is read.
-/

namespace UtilityCss

namespace Text

theorem unifyFrom_of_notMem {cs : List Char} (h : '\r' ∉ cs) (done : List Char) :
    unifyFrom done cs = done.reverse ++ cs := by
  induction cs generalizing done with
  | nil => rw [unifyFrom, List.append_nil]
  | cons c cs ih =>
    obtain ⟨hc, hcs⟩ := not_or.1 (mt List.mem_cons.2 h)
    rw [unifyFrom, ih hcs, List.reverse_cons, List.append_assoc, List.singleton_append]
    · exact fun _ heq _ => hc heq.symm
    · exact fun heq => hc heq.symm

theorem unifyNewlines_of_notMem {text : String} (h : '\r' ∉ text.toList) : unifyNewlines text = text := by
  rw [unifyNewlines, unifyFrom_of_notMem h, List.reverse_nil, List.nil_append, String.ofList_toList]

theorem Utf8.decodeLenient_toUTF8 (text : String) : decodeLenient text.toUTF8 = text := by
  have hvalid : String.fromUTF8? text.toUTF8 = some text := dif_pos text.isValidUTF8
  rw [decodeLenient, hvalid]

end Text

theorem Path.name_below (root : Path) (folders : List String) (name : String) :
    (root.below (folders ++ [name])).name = name := by
  simp [Path.name, Path.below]

theorem ContentKind.ofName?_extension {path : Path} (h : path.extension ≠ "") :
    ofName? path.extension = some (ofExtension path.extension) := by
  have hdot : Text.beginsWith "." path.extension = true := by
    rw [Path.extension] at h ⊢
    split at h
    · split at h
      · exact absurd rfl h
      · rename_i hends
        rw [if_neg hends]
        simp [Text.beginsWith]
    · exact absurd rfl h
  rw [ofName?, hdot]
  rfl

def FileTree.filesBelow (tree : FileTree) (location : Location) : List (Location × ByteArray) :=
  (tree.below location).filterMap fun (names, node) =>
    match node with
    | .file bytes => some (names, bytes)
    | .folder => none

theorem FileTree.ne_nil_of_mem_below {tree : FileTree} {here names : Location} {node : Node}
    (h : (names, node) ∈ tree.below here) : names ≠ [] := by
  obtain ⟨⟨location, other⟩, -, hrest⟩ := List.mem_filterMap.1 h
  obtain ⟨rest, -, hrest⟩ := Option.bind_eq_some_iff.1 hrest
  split at hrest
  · cases hrest
  · rename_i hne
    obtain ⟨rfl, -⟩ := Prod.mk.inj (Option.some.inj hrest)
    simpa using hne

namespace Pass

/-- A project with one file, which holds this content, has an extension, and is selected by a pattern on a way
that leads through no excluded folder. The base sheet, if there is one, is not the project's own. -/
structure OneFile (space : Workspace) (root : Path) (options : Options) (names : List String)
    (content : String) : Prop where
  tree : space.tree.WellFormed
  sole : space.tree.filesBelow (space.resolve root) = [(names, content.toUTF8)]
  newlines : '\r' ∉ content.toList
  extension : (root.below names).extension ≠ ""
  selected : ∃ pattern ∈ options.patterns, ∃ found, selectedBy space root pattern = .ok found ∧
    ∃ route ∈ found, space.locate (root.below route) = .ok (space.resolve root ++ names) ∧
      isExcluded options.excludeDirs route.dropLast = false
  base : options.includeBase = true → namedBase? options = none →
    ∀ path, keptBase? space (some root) ≠ .ok (some path)

/-- A pattern that goes up leads to no file outside the project. -/
def StaysInside (space : Workspace) (root : Path) (options : Options) : Prop :=
  (∃ pattern ∈ options.patterns, ".." ∈ (Path.ofText pattern).parts) → ∀ files,
    sources space root options = .ok files → ∀ file ∈ files, space.resolve root <+: space.resolve file

namespace OneFile

variable {space : Workspace} {root file : Path} {options : Options} {names : List String}
  {content : String} {files : List Path}

theorem eq_of_node? (h : OneFile space root options names content) {route : List String}
    {bytes : ByteArray} (hroute : route ≠ [])
    (hnode : space.tree.node? (space.resolve root ++ route) = some (.file bytes)) :
    route = names ∧ bytes = content.toUTF8 := by
  have hmem : (route, bytes) ∈ space.tree.filesBelow (space.resolve root) :=
    List.mem_filterMap.2 ⟨(route, .file bytes), (h.tree.mem_below hroute).2 hnode, rfl⟩
  rw [h.sole, List.mem_singleton] at hmem
  exact Prod.mk.inj hmem

theorem node? (h : OneFile space root options names content) :
    names ≠ [] ∧ space.tree.node? (space.resolve root ++ names) = some (.file content.toUTF8) := by
  have hmem : (names, content.toUTF8) ∈ space.tree.filesBelow (space.resolve root) := by
    rw [h.sole]
    exact List.mem_cons_self
  obtain ⟨⟨route, node⟩, hbelow, hfile⟩ := List.mem_filterMap.1 hmem
  cases node with
  | folder => cases hfile
  | file bytes =>
    obtain ⟨rfl, rfl⟩ := Prod.mk.inj (Option.some.inj hfile)
    have hroute : route ≠ [] := FileTree.ne_nil_of_mem_below hbelow
    exact ⟨hroute, (h.tree.mem_below hroute).1 hbelow⟩

theorem inside (htree : space.tree.WellFormed) (hinside : StaysInside space root options)
    (hfiles : sources space root options = .ok files) (hfile : file ∈ files) :
    space.resolve root <+: space.resolve file := by
  by_cases hup : ∃ pattern ∈ options.patterns, ".." ∈ (Path.ofText pattern).parts
  · exact hinside hup files hfiles file hfile
  · obtain ⟨-, -, hfound⟩ := sources_eq_ok hfiles
    obtain ⟨pattern, hpattern, kept, route, hkept, hroute, rfl⟩ := (hfound file).1 hfile
    obtain ⟨-, parts, hparts, -, hnames⟩ := leads_of_mem_scannedBy htree hkept hroute
    have hplain : ".." ∉ (Path.ofText pattern).parts := fun hmem => hup ⟨pattern, hpattern, hmem⟩
    rw [Workspace.resolve_below, Path.foldl_follow (Glob.notMem_up hparts hplain hnames)]
    exact List.prefix_append _ _

theorem locate_of_mem_sources (h : OneFile space root options names content)
    (hinside : StaysInside space root options) (hfiles : sources space root options = .ok files)
    (hfile : file ∈ files) : space.locate file = .ok (space.resolve root ++ names) := by
  obtain ⟨hroot, -, -⟩ := sources_eq_ok hfiles
  obtain ⟨location, bytes, hlocate, hnode⟩ := exists_file_of_mem_sources hfiles hfile
  obtain ⟨rest, hrest⟩ := inside h.tree hinside hfiles hfile
  rw [← Workspace.locate_eq_resolve hlocate] at hrest
  subst hrest
  have hne : rest ≠ [] := by
    rintro rfl
    rw [List.append_nil, Workspace.node?_resolve_of_look hroot] at hnode
    cases hnode
  rw [hlocate, (h.eq_of_node? hne hnode).1]

theorem extension_of_mem_sources (h : OneFile space root options names content)
    (hinside : StaysInside space root options) (hfiles : sources space root options = .ok files)
    (hfile : file ∈ files) : file.extension = (root.below names).extension := by
  have hlocate := h.locate_of_mem_sources hinside hfiles hfile
  obtain ⟨hroot, -, hfound⟩ := sources_eq_ok hfiles
  obtain ⟨pattern, -, kept, route, hkept, hroute, rfl⟩ := (hfound file).1 hfile
  have hrooted := Workspace.rootedAt_of_look h.tree hroot
  obtain ⟨hscanned, -⟩ := leads_of_mem_scannedBy h.tree hkept hroute
  obtain ⟨hisFile, -⟩ := Bool.and_eq_true_iff.1 hscanned
  have hlast := hrooted.getLast?_ne hisFile
  obtain ⟨front, last, rfl⟩ := List.eq_nil_or_concat' names |>.resolve_left h.node?.1
  have hresolve := Workspace.locate_eq_resolve hlocate
  rw [Workspace.resolve_below] at hresolve
  rcases List.eq_nil_or_concat' route with rfl | ⟨way, name, rfl⟩
  · simp at hresolve
  · have hname : name ≠ ".." := fun heq => hlast (by rw [heq, List.getLast?_concat])
    rw [List.foldl_append, List.foldl_cons, List.foldl_nil, Path.follow, if_neg hname,
      ← List.append_assoc] at hresolve
    obtain rfl := List.singleton_inj.1 (List.append_inj_right' hresolve rfl)
    rw [Path.extension, Path.extension, Path.name_below, Path.name_below]

theorem exists_mem_sources (h : OneFile space root options names content)
    (hfiles : sources space root options = .ok files) : ∃ file, file ∈ files := by
  obtain ⟨pattern, hpattern, found, hfound, route, hroute, hlocate, hexcluded⟩ := h.selected
  obtain ⟨-, hscans, hmem⟩ := sources_eq_ok hfiles
  obtain ⟨kept, hkept⟩ := hscans pattern hpattern
  obtain ⟨parts, paths, hparts, hsearch, rfl⟩ := scannedBy_eq_ok hkept
  have hpaths : paths = found := by
    simp only [selectedBy, hparts, hsearch] at hfound
    exact Except.ok.inj hfound
  have hisFile : space.isFile (root.below route) = true := by
    rw [Workspace.isFile_iff]
    exact ⟨content.toUTF8, by rw [Workspace.look_of_locate hlocate, h.node?.2]⟩
  have hscanned : isScanned space root options.excludeDirs route = true := by
    rw [isScanned, hisFile, hexcluded]
    rfl
  exact ⟨_, (hmem _).2 ⟨pattern, hpattern, _, route, hkept,
    List.mem_filter.2 ⟨hpaths ▸ hroute, hscanned⟩, rfl⟩⟩

theorem projectClasses_eq (h : OneFile space root options names content)
    (hinside : StaysInside space root options) (hfiles : sources space root options = .ok files) :
    projectClasses space root options =
      .ok (options.scanner.scan content (.ofExtension (root.below names).extension), files.length) := by
  have hread : ∀ file ∈ files, fileClasses space options.scanner file =
      .ok (options.scanner.scan content (.ofExtension (root.below names).extension)) := by
    intro file hfile
    have hbytes := Workspace.read_eq_ok.2 ⟨_, h.locate_of_mem_sources hinside hfiles hfile, h.node?.2⟩
    rw [fileClasses, Workspace.readLenient, hbytes, h.extension_of_mem_sources hinside hfiles hfile]
    have htext : Text.unifyNewlines (Text.Utf8.decodeLenient content.toUTF8) = content := by
      rw [Text.Utf8.decodeLenient_toUTF8, Text.unifyNewlines_of_notMem h.newlines]
    exact congrArg (fun text => Except.ok (options.scanner.scan text _)) htext
  obtain ⟨lists, hlists⟩ := exists_mapM_eq_ok.2 fun file hfile => ⟨_, hread file hfile⟩
  obtain ⟨file, hfile⟩ := h.exists_mem_sources hfiles
  have hclasses : Text.orderedSet lists.flatten =
      options.scanner.scan content (.ofExtension (root.below names).extension) := by
    refine Eq.trans (Text.orderedSet_congr fun text => ?_) (Text.orderedSet_orderedSet _)
    rw [← Scanner.scan]
    simp only [List.mem_flatten, mem_mapM hlists]
    constructor
    · rintro ⟨list, ⟨other, hother, hlist⟩, htext⟩
      rwa [Except.ok.inj ((hread other hother).symm.trans hlist)]
    · exact fun htext => ⟨_, ⟨file, hfile, hread file hfile⟩, htext⟩
  refine bind_eq_ok.2 ⟨files, hfiles, ?_⟩
  rw [filesClasses, hlists]
  simp only [Except.map, hclasses]

theorem keptBase?_eq (h : OneFile space root options names content) (hinclude : options.includeBase = true)
    (hnamed : namedBase? options = none) (hkept : ∃ kept, keptBase? space (some root) = .ok kept) :
    keptBase? space (some root) = .ok none := by
  obtain ⟨kept, hkept⟩ := hkept
  cases kept with
  | none => exact hkept
  | some path => exact absurd hkept (h.base hinclude hnamed path)

end OneFile

section Base

variable {session noted : Session} {root : Path} {options : Options}

def textBase (space : Workspace) (options : Options) : Except Failure String :=
  if options.includeBase then baseText space none options else .ok ""

theorem generateFromText_apply (content : String) (kind : ContentKind) (options : Options)
    (session : Session) :
    generateFromText content kind options session =
      match textBase session.space options with
      | .ok base => .ok (sheetText options (options.scanner.scan content kind) base) session
      | .error failure => .error failure session := by
  have hnotes : baseNotes session.space none options = [] := by
    rw [baseNotes]
    split
    · rename_i hkept
      cases hkept
    · rfl
  cases hinclude : options.includeBase with
  | false => simp [generateFromText, optionalBase, textBase, hinclude]
  | true =>
    simp only [generateFromText, optionalBase, textBase, hinclude, if_true, loadBase, Task.bind_apply,
      Task.ask_apply, hnotes, Task.noteAll_apply, Session.noteAll, List.foldl_nil, Task.look_apply]
    cases baseText session.space none options <;> rfl

theorem baseOf_eq_textBase (hnoted : session.Logged noted)
    (hlog : options.includeBase = true → ∀ path, namedBase? options = some path →
      session.space.resolve path ∉ session.logFiles)
    (hkept : options.includeBase = true → namedBase? options = none →
      keptBase? session.space (some root) = .ok none) :
    baseOf noted.space root options = textBase session.space options := by
  rw [baseOf, textBase]
  cases hinclude : options.includeBase with
  | false => rfl
  | true =>
    rw [if_pos rfl, if_pos rfl, baseText, baseText, baseFile?_congr hnoted.files]
    cases hnamed : namedBase? options with
    | some path =>
      simp only [baseFile?, hnamed, readBase, Workspace.readText,
        hnoted.files.read (hlog hinclude path hnamed)]
    | none =>
      have hnone : keptBase? session.space none = .ok none := rfl
      simp only [baseFile?, hnamed, hkept hinclude hnamed, hnone]

theorem exists_keptBase? {space : Workspace} {base : String} (h : baseOf space root options = .ok base)
    (hinclude : options.includeBase = true) (hnamed : namedBase? options = none) :
    ∃ kept, keptBase? space (some root) = .ok kept := by
  rw [baseOf, if_pos hinclude, baseText, baseFile?, hnamed] at h
  cases hkept : keptBase? space (some root) with
  | ok kept => exact ⟨kept, rfl⟩
  | error error =>
    simp only [hkept] at h
    cases h

end Base

structure Saves (output : Path) (text : String) (session : Session) (report : Report) (after : Session) :
    Prop where
  size : ∃ classes, report.outcome = .written classes text.toUTF8.size
  saved : ∃ noted space, session.Logged noted ∧ noted.space.save output text.toUTF8 = (space, none) ∧
    Session.Logged { noted with space } after
  bytes : session.space.resolve output ∉ session.logFiles →
    after.space.tree.bytes? (session.space.resolve output) = some text.toUTF8

section Main

variable {session after : Session} {root output : Path} {options : Options} {names : List String}
  {content : String} {report : Report}

theorem Wrote.saves_text {found : List String} {base : String} {noted : Session} {saved : Workspace}
    (h : Wrote root output options found base session noted saved after) :
    Saves output (sheetText options found base) session (sheetReport output options found base) after where
  size := ⟨_, rfl⟩
  saved := ⟨noted, saved, h.notes, h.saves, h.records⟩
  bytes hlog := by
    have hfiles : Session.logFiles { noted with space := saved } = session.logFiles := h.notes.logFiles
    have hrecords := h.records.files.spares
    rw [hfiles] at hrecords
    rw [hrecords.same _ hlog, Workspace.bytes?_of_save h.saves, h.notes.files.resolve, if_pos rfl]

/-- The style sheet of a project with one file is the one that is made from the text of the file, and it is
written if the scan, the search for a base sheet and the saving do not fail. The file may be found by patterns
with double dots as long as these lead to no other one; a base sheet that the options name is not to be a log
file. -/
theorem generate_oneFile (output : Path) (h : OneFile session.space root options names content)
    (hinside : StaysInside session.space root options)
    (hlog : options.includeBase = true → ∀ path, namedBase? options = some path →
      session.space.resolve path ∉ session.logFiles) :
    ∃ kind, ContentKind.ofName? (root.below names).extension = some kind ∧
      (∀ report after, generate root output options session = .ok report after → report.succeeded = true →
        ∃ text, generateFromText content kind options session = .ok text session ∧
          Saves output text session report after) ∧
      ∀ text later, (∃ files, sources session.space root options = .ok files) →
        (options.includeBase = true → namedBase? options = none →
          ∃ kept, keptBase? session.space (some root) = .ok kept) →
        generateFromText content kind options session = .ok text later →
        (session.space.save output text.toUTF8).2 = none →
        ∃ report after, generate root output options session = .ok report after ∧ report.succeeded = true := by
  refine ⟨_, ContentKind.ofName?_extension h.extension, ?_, ?_⟩
  · intro report after hgenerate hsucceeded
    obtain ⟨found, count, base, noted, saved, hfound, hwrote, rfl⟩ :=
      wrote_of_succeeded hgenerate hsucceeded
    obtain ⟨files, hfiles, -⟩ := bind_eq_ok.1 hfound
    rw [h.projectClasses_eq hinside hfiles] at hfound
    obtain ⟨rfl, -⟩ := Prod.mk.inj (Except.ok.inj hfound)
    have hkept : options.includeBase = true → namedBase? options = none →
        keptBase? session.space (some root) = .ok none := by
      intro hinclude hnamed
      have hkept := exists_keptBase? hwrote.reads hinclude hnamed
      rw [keptBase?_congr hwrote.notes.files] at hkept
      exact h.keptBase?_eq hinclude hnamed hkept
    have htext := baseOf_eq_textBase hwrote.notes hlog hkept
    refine ⟨_, ?_, hwrote.saves_text⟩
    rw [generateFromText_apply, ← htext, hwrote.reads]
  · rintro text later ⟨files, hfiles⟩ hkept htext hsave
    rw [generateFromText_apply] at htext
    cases hbase : textBase session.space options with
    | error failure =>
      rw [hbase] at htext
      cases htext
    | ok base =>
      rw [hbase] at htext
      obtain ⟨rfl, rfl⟩ := EStateM.Result.ok.inj htext
      obtain ⟨noted, hnoted, hwrite⟩ := write_of_classes (h.projectClasses_eq hinside hfiles) output
      have hreads := (baseOf_eq_textBase hnoted hlog fun hinclude hnamed =>
        h.keptBase?_eq hinclude hnamed (hkept hinclude hnamed)).trans hbase
      rw [← hnoted.files.save] at hsave
      simp only [hreads] at hwrite
      split at hwrite
      · rename_i saved error hsaved
        rw [hsaved] at hsave
        cases hsave
      · exact ⟨_, _, generate_of_ok hwrite, rfl⟩

theorem generate_oneFile_page :
    let session := recorded Log.debug [
      (["p"], .folder),
      (["p", "a.html"], .file "<p class=\"vibe-flex\">".toUTF8)]
    let options : Options := { includeBase := false, excludeDirs := ["q"] }
    ∃ report after, generate (Path.ofText "p") (Path.ofText "out.css") options session = .ok report after ∧
      report.succeeded = true ∧
      generateFromText "<p class=\"vibe-flex\">" .markup options session =
        .ok ".vibe-flex \x7b display: flex; \x7d\n" session ∧
      Saves (Path.ofText "out.css") ".vibe-flex \x7b display: flex; \x7d\n" session report after := by
  intro session options
  have hone : OneFile session.space (Path.ofText "p") options ["a.html"] "<p class=\"vibe-flex\">" := {
    tree := by decide
    sole := by decide +kernel
    newlines := by decide
    extension := by decide
    selected := ⟨"*.html", by decide, [["a.html"]], by decide +kernel, ["a.html"], by decide,
      by decide +kernel, by decide⟩
    base := fun hinclude => absurd hinclude Bool.false_ne_true }
  have hinside : StaysInside session.space (Path.ofText "p") options := fun hup => absurd hup (by decide)
  obtain ⟨kind, hkind, hwrites, hsucceeds⟩ := generate_oneFile (Path.ofText "out.css") hone hinside
    fun hinclude => absurd hinclude Bool.false_ne_true
  obtain rfl : kind = .markup := by
    refine Option.some.inj (hkind.symm.trans ?_)
    decide +kernel
  have hclasses : options.scanner.scan "<p class=\"vibe-flex\">" .markup = ["vibe-flex"] := by
    decide +kernel
  have hsheet : sheetText options ["vibe-flex"] "" = ".vibe-flex \x7b display: flex; \x7d\n" := by
    decide +kernel
  have htext : generateFromText "<p class=\"vibe-flex\">" .markup options session =
      .ok ".vibe-flex \x7b display: flex; \x7d\n" session := by
    rw [generateFromText_apply, hclasses, ← hsheet]
    rfl
  have hfiles : sources session.space (Path.ofText "p") options = .ok [Path.ofText "p/a.html"] := by
    decide +kernel
  obtain ⟨report, after, hgenerate, hsucceeded⟩ := hsucceeds _ _ ⟨_, hfiles⟩
    (fun hinclude => absurd hinclude Bool.false_ne_true) htext (by decide +kernel)
  obtain ⟨text, hmade, hsaves⟩ := hwrites report after hgenerate hsucceeded
  obtain ⟨rfl, -⟩ := EStateM.Result.ok.inj (htext.symm.trans hmade)
  exact ⟨report, after, hgenerate, hsucceeded, htext, hsaves⟩

end Main

/-! ### More than the file -/

def WritesSheetOf (session : Session) (root output : Path) (options : Options) (names : List String)
    (content : String) : Prop :=
  ∀ kind report after, ContentKind.ofName? (root.below names).extension = some kind →
    generate root output options session = .ok report after → report.succeeded = true →
    ∃ text, generateFromText content kind options session = .ok text session ∧
      after.space.tree.bytes? (session.space.resolve output) = some text.toUTF8

theorem not_writesSheetOf {session : Session} {root output : Path} {options : Options}
    {names : List String} {content : String} {kind : ContentKind}
    (hkind : ContentKind.ofName? (root.below names).extension = some kind)
    (hcheck : (match generate root output options session, generateFromText content kind options session with
      | .ok report after, .ok text _ => report.succeeded &&
        decide (after.space.tree.bytes? (session.space.resolve output) ≠ some text.toUTF8)
      | _, _ => false) = true) : ¬WritesSheetOf session root output options names content := by
  intro hwrites
  split at hcheck
  · rename_i report after text later hgenerate htext
    obtain ⟨hsucceeded, hbytes⟩ := Bool.and_eq_true_iff.1 hcheck
    obtain ⟨made, hmade, hsame⟩ := hwrites kind report after hkind hgenerate hsucceeded
    obtain ⟨rfl, -⟩ := EStateM.Result.ok.inj (htext.symm.trans hmade)
    exact of_decide_eq_true hbytes hsame
  · cases hcheck

/-- A pattern that leads to the file of another folder, and a base sheet that is the log file. -/
theorem not_all_oneFile :
    let content := "<p class=\"vibe-flex\">"
    let beside : Session := { space := { tree := { nodes := [
      (["p"], .folder),
      (["p", "a.html"], .file content.toUTF8),
      (["q"], .folder),
      (["q", "b.html"], .file "<p class=\"vibe-block\">".toUTF8)] } } }
    let upward : Options := { scanPatterns := ["*.html", "../q/*.html"], includeBase := false }
    let logging := recorded Log.debug [(["p"], .folder), (["p", "a.html"], .file content.toUTF8)]
    let logged : Options := { scanPatterns := ["*.html"], baseCss := some "/log.jsonl" }
    (OneFile beside.space (Path.ofText "p") upward ["a.html"] content ∧
      ¬WritesSheetOf beside (Path.ofText "p") (Path.ofText "out.css") upward ["a.html"] content) ∧
    OneFile logging.space (Path.ofText "p") logged ["a.html"] content ∧
      ¬WritesSheetOf logging (Path.ofText "p") (Path.ofText "out.css") logged ["a.html"] content := by
  intro content beside upward logging logged
  have hkind : ContentKind.ofName? ((Path.ofText "p").below ["a.html"]).extension = some .markup := by
    decide +kernel
  refine ⟨⟨?_, not_writesSheetOf hkind (by decide +kernel)⟩, ?_, not_writesSheetOf hkind (by decide +kernel)⟩
  · exact {
      tree := by decide
      sole := by decide +kernel
      newlines := by decide
      extension := by decide
      selected := ⟨"*.html", by decide, [["a.html"]], by decide +kernel, ["a.html"], by decide,
        by decide +kernel, by decide⟩
      base := fun hinclude => absurd hinclude Bool.false_ne_true }
  · exact {
      tree := by decide
      sole := by decide +kernel
      newlines := by decide
      extension := by decide
      selected := ⟨"*.html", by decide, [["a.html"]], by decide +kernel, ["a.html"], by decide,
        by decide +kernel, by decide⟩
      base := fun _ hnamed => absurd hnamed (by decide) }

end Pass

end UtilityCss
