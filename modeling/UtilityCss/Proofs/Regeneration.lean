import Mathlib
import UtilityCss.Proofs.PassFiles
import UtilityCss.Proofs.StableScans

/-!
# Generating a style sheet again

A pass that succeeds leaves a tree in which the next pass reads what the first one read: the same files with
the same classes, and the same base sheet. It writes the same bytes to the same place, so that nothing is left
of it but its records.
-/

namespace UtilityCss

theorem Text.orderedSet_congr {texts others : List String}
    (h : ∀ text, text ∈ texts ↔ text ∈ others) : orderedSet texts = orderedSet others :=
  (pairwise_orderedSet texts).eq_of_mem_iff (pairwise_orderedSet others) fun text => by
    rw [mem_orderedSet, mem_orderedSet, h]

namespace Workspace

variable {space after : Workspace} {path root : Path} {base location : Location} {bytes : ByteArray}

theorem GrowsAt.rootedAt {places : List Location} (h : GrowsAt places space after)
    (hroot : space.RootedAt root base) (htree : after.tree.WellFormed) : after.RootedAt root base :=
  ⟨htree, h.locate hroot.located, h.folder hroot.folder⟩

theorem RootedAt.tooLong_of_look (h : space.RootedAt root base) {names : List String} {error : FileError}
    (hlook : space.look (root.below names) = .error error) :
    (root.below names).fault? = some .tooLong ∨ ∃ name ∈ names, Path.isTooLongName name = true := by
  have hlocate : space.locate (root.below names) = .error error := by
    rw [look] at hlook
    split at hlook
    · cases hlook
    · rename_i other hlocate
      split at hlook
      · rwa [Except.error.inj hlook] at hlocate
      · cases hlook
  rw [look_eq_error hlook] at hlocate
  cases hfault : (root.below names).fault? with
  | some fault =>
    rw [locate_of_fault? hfault] at hlocate
    exact .inl (congrArg some (FileError.mk.inj (Except.error.inj hlocate)).1)
  | none =>
    have hwalk := walk_below h.located names
    cases hresult : space.tree.walk base names with
    | ok location =>
      rw [locate_of_walk hfault (hwalk.trans hresult)] at hlocate
      cases hlocate
    | error fault =>
      rw [locate_of_walk_error hfault (hwalk.trans hresult)] at hlocate
      obtain rfl := (FileError.mk.inj (Except.error.inj hlocate)).1
      exact .inr (FileTree.walk_eq_tooLong hresult)

/-! ### Saving a file again -/

theorem written_of_save (h : space.save path bytes = (after, none)) :
    after.isFolder path.parent = true ∧ ∃ location, after.locate path = .ok location ∧
      after.tree.node? location = some (.file bytes) := by
  rw [save] at h
  split at h
  · cases h
  · rename_i made hmade
    split at h
    · rename_i written hwrite
      obtain rfl := (Prod.mk.inj h).1
      have hgrows := growsAt_of_write hwrite
      refine ⟨hgrows.isFolder (isFolder_of_makeFolders hmade), ?_⟩
      rw [write] at hwrite
      obtain ⟨location, hlocate, hwrite⟩ := bind_eq_ok.1 hwrite
      refine ⟨location, hgrows.locate hlocate, ?_⟩
      split at hwrite
      · cases hwrite
      · rename_i hfolder
        obtain rfl := Except.ok.inj hwrite
        have hlocation : location ≠ [] := by
          rintro rfl
          exact hfolder rfl
        rw [FileTree.node?_put hlocation, if_pos rfl]
    · cases h

theorem save_same (hparent : space.isFolder path.parent = true)
    (hlocate : space.locate path = .ok location)
    (hnode : space.tree.node? location = some (.file bytes)) :
    ∃ saved, space.save path bytes = (saved, none) ∧ space.DiffersAt [] saved := by
  have hlocation : location ≠ [] := by
    rintro rfl
    cases hnode
  have hwrite : space.write path bytes =
      .ok { space with tree := space.tree.put location (.file bytes) } := by
    rw [write, hlocate]
    simp only [bind, Except.bind, hnode]
  have hsame (other : Location) :
      (space.tree.put location (.file bytes)).node? other = space.tree.node? other := by
    rw [FileTree.node?_put hlocation]
    split
    · rename_i hother
      rw [hother, hnode]
    · rfl
  refine ⟨{ space with tree := space.tree.put location (.file bytes) }, ?_, rfl,
    fun other _ => hsame other, fun other => congrArg _ (hsame other)⟩
  simp only [save, makeFolders_of_isFolder hparent, hwrite]

end Workspace

/-- A session and a later one between which files were written at the given places, and records. -/
structure Session.Grown (places : List Location) (before after : Session) : Prop where
  logger : after.logger = before.logger
  files : before.space.GrowsAt (places ++ before.logFiles) after.space

namespace Session

variable {places : List Location} {before middle after : Session}

theorem Logged.grown (h : Logged before after) (places : List Location) : Grown places before after :=
  ⟨h.logger, h.files.growsAt.mono (List.subset_append_right _ _)⟩

theorem Grown.logFiles (h : Grown places before after) : after.logFiles = before.logFiles := by
  rw [Session.logFiles, Session.logFiles, h.logger]

theorem Grown.trans (first : Grown places before middle) (second : Grown places middle after) :
    Grown places before after where
  logger := second.logger.trans first.logger
  files := first.files.trans (first.logFiles ▸ second.files)

end Session

namespace Pass

open Workspace (GrowsAt RootedAt)

/-! ### What a pass leaves -/

section Frame

variable {session after : Session} {root output : Path} {options : Options}

theorem grown_of_write {result : EStateM.Result Failure Session (Classification × Nat)}
    (h : write root output options session = result) :
    match result with
    | .ok _ after | .error _ after => session.Grown [session.space.resolve output] after := by
  rcases write_cases session root output options with
    ⟨failure, noted, written, hwrite, hnoted, hgains, hlogger⟩ |
    ⟨found, files, base, noted, saved, hwrite, hfound, hnoted, hbase, hsave⟩
  · obtain rfl := hwrite.symm.trans h
    exact (hnoted.grown _).trans ⟨hlogger, hgains.growsAt _⟩
  · obtain rfl := hwrite.symm.trans h
    have hsaved := Workspace.growsAt_save noted.space output (sheetText options found base).toUTF8
    rw [hsave, hnoted.files.resolve] at hsaved
    exact (hnoted.grown _).trans ⟨rfl, hsaved.mono (List.subset_append_left _ _)⟩

theorem grown_of_generate {result : EStateM.Result Failure Session Report}
    (h : generate root output options session = result) :
    match result with
    | .ok _ after | .error _ after => session.Grown [session.space.resolve output] after := by
  cases hwrite : write root output options session with
  | ok value written =>
    rw [generate_of_ok hwrite] at h
    subst h
    exact (grown_of_write hwrite).trans ((Session.logged_emit written _).grown _)
  | error failure written =>
    have hwritten := grown_of_write hwrite
    rw [generate_of_error hwrite] at h
    cases hreported : failure.isReported with
    | true =>
      rw [hreported, if_pos rfl] at h
      subst h
      exact hwritten.trans ((Session.logged_emit written _).grown _)
    | false =>
      rw [hreported, if_neg Bool.false_ne_true] at h
      subst h
      exact hwritten

end Frame

/-! ### Reading again -/

section Reading

variable {before after : Workspace} {places : List Location} {root : Path} {base : Location}
  {options : Options} {files others : List Path} {scanner : Scanner} {classes : List String}

theorem filesClasses_congr (h : filesClasses before scanner files = .ok classes)
    (hfiles : ∀ file, file ∈ others ↔ file ∈ files)
    (hread : ∀ file ∈ files, after.read file = before.read file) :
    filesClasses after scanner others = .ok classes := by
  obtain ⟨found, hfound, rfl⟩ := map_eq_ok.1 h
  have hsame : ∀ file ∈ files, fileClasses after scanner file = fileClasses before scanner file := by
    intro file hfile
    rw [fileClasses, fileClasses, Workspace.readLenient, Workspace.readLenient, hread file hfile]
  have hall : ∀ file ∈ others, ∃ classes, fileClasses after scanner file = .ok classes := by
    intro file hfile
    rw [hsame file ((hfiles file).1 hfile)]
    exact exists_mapM_eq_ok.1 ⟨found, hfound⟩ file ((hfiles file).1 hfile)
  obtain ⟨later, hlater⟩ := exists_mapM_eq_ok.2 hall
  refine map_eq_ok.2 ⟨later, hlater, Text.orderedSet_congr fun text => ?_⟩
  simp only [List.mem_flatten, mem_mapM hlater, mem_mapM hfound, hfiles]
  refine exists_congr fun list => and_congr_left fun _ => exists_congr fun file => ?_
  exact and_congr_right fun hfile => by rw [hsame file hfile]

theorem projectBase_eq (root : Path) :
    projectBase root = root.below ["wwwroot", "css", "vibe-base.css"] := by
  have habsolute : (Path.ofText "wwwroot/css/vibe-base.css").isAbsolute = false := by decide
  have hparts : (Path.ofText "wwwroot/css/vibe-base.css").parts =
      ["wwwroot", "css", "vibe-base.css"] := by decide
  rw [projectBase, Path.join, habsolute, hparts]
  rfl

theorem keptBase?_eq_ok {kept : Option Path} : keptBase? before (some root) = .ok kept ↔
    ∃ node, before.look (projectBase root) = .ok node ∧
      kept = if node.any Node.isFile then some (projectBase root) else none := by
  simp only [keptBase?, map_eq_ok, @eq_comm _ kept]

theorem look_projectBase (hafter : after.RootedAt root base)
    {node : Option Node} (h : before.look (projectBase root) = .ok node) :
    ∃ later, after.look (projectBase root) = .ok later := by
  cases hlook : after.look (projectBase root) with
  | ok later => exact ⟨later, rfl⟩
  | error error =>
    exfalso
    rw [projectBase_eq] at h hlook
    rcases hafter.tooLong_of_look hlook with hfault | hname
    · rw [Workspace.look, Workspace.locate_of_fault? hfault] at h
      cases h
    · revert hname
      decide

theorem keptBase?_of_growsAt (hgrows : GrowsAt places before after)
    (hbefore : before.RootedAt root base) (hafter : after.RootedAt root base)
    (hplace : before.resolve (projectBase root) ∉ places) {kept : Option Path}
    (h : keptBase? before (some root) = .ok kept) : keptBase? after (some root) = .ok kept := by
  obtain ⟨node, hlook, rfl⟩ := keptBase?_eq_ok.1 h
  obtain ⟨later, hlater⟩ := look_projectBase hafter hlook
  refine keptBase?_eq_ok.2 ⟨later, hlater, ?_⟩
  have hfile (bytes : ByteArray) : later = some (.file bytes) ↔ node = some (.file bytes) := by
    constructor
    · rintro rfl
      have hnode := hgrows.file_of_file (hgrows.resolve _ ▸ hplace)
        (Workspace.node?_resolve_of_look hlater)
      rw [projectBase_eq, hafter.resolve_below, Path.foldl_follow (by decide)] at hnode
      rw [projectBase_eq] at hlook
      exact Except.ok.inj (hlook.symm.trans (hbefore.look_below hnode hlook))
    · rintro rfl
      obtain ⟨location, hlocate, hnode⟩ := Workspace.locate_of_look hlook
      rw [Workspace.locate_eq_resolve hlocate] at hnode
      have hkept := Workspace.look_of_locate (hgrows.locate hlocate)
      rw [Workspace.locate_eq_resolve hlocate, hgrows.node? hplace hnode] at hkept
      exact Except.ok.inj (hlater.symm.trans hkept)
  rcases node with _ | _ | _ <;> rcases later with _ | _ | _ <;> simp_all [Node.isFile]

theorem exists_read_of_readBase {path : Path} {text : String} (h : readBase before path = .ok text) :
    ∃ bytes, before.read path = .ok bytes := by
  rw [readBase] at h
  split at h
  · cases h
  · cases h
  · rename_i hread
    obtain ⟨bytes, hbytes, -⟩ := bind_eq_ok.1 hread
    exact ⟨bytes, hbytes⟩

theorem readBase_of_growsAt (hgrows : GrowsAt places before after) {path : Path}
    (hplace : before.resolve path ∉ places) {text : String} (h : readBase before path = .ok text) :
    readBase after path = .ok text := by
  obtain ⟨bytes, hbytes⟩ := exists_read_of_readBase h
  rwa [readBase, Workspace.readText, hgrows.read hplace hbytes, ← hbytes, ← Workspace.readText, ← readBase]

theorem baseOf_of_growsAt (hgrows : GrowsAt places before after) (hbefore : before.RootedAt root base)
    (hafter : after.RootedAt root base)
    (hplace : options.includeBase = true →
      before.resolve ((namedBase? options).getD (projectBase root)) ∉ places)
    {text : String} (h : baseOf before root options = .ok text) :
    baseOf after root options = .ok text := by
  rw [baseOf] at h ⊢
  split
  · rename_i hinclude
    rw [if_pos hinclude, baseText] at h
    replace hplace := hplace hinclude
    rw [baseText]
    cases hnamed : namedBase? options with
    | some path =>
      simp only [baseFile?, hnamed, Option.getD_some] at h hplace ⊢
      exact readBase_of_growsAt hgrows hplace h
    | none =>
      simp only [baseFile?, hnamed, Option.getD_none] at h hplace ⊢
      cases hkept : keptBase? before (some root) with
      | error error =>
        rw [hkept] at h
        cases h
      | ok kept =>
        rw [hkept] at h
        rw [keptBase?_of_growsAt hgrows hbefore hafter hplace hkept]
        cases kept with
        | none => exact h
        | some path =>
          obtain ⟨node, -, hpath⟩ := keptBase?_eq_ok.1 hkept
          obtain rfl : path = projectBase root := by
            split at hpath
            · exact Option.some.inj hpath
            · cases hpath
          exact readBase_of_growsAt hgrows hplace h
  · rename_i hinclude
    rwa [if_neg hinclude] at h

end Reading

/-! ### The second pass -/

def sheetReport (output : Path) (options : Options) (classes : List String) (base : String) : Report where
  output := output
  outcome := .written (Classification.ofCompiled options.naming classes)
    (sheetText options classes base).toUTF8.size

section Again

variable {session after : Session} {root output : Path} {options : Options} {report : Report}

/-- What a pass that succeeds has done with its classes: it has read the base sheet and saved the style sheet,
with nothing but records before and after. -/
structure Wrote (root output : Path) (options : Options) (found : List String) (base : String)
    (session noted : Session) (saved : Workspace) (after : Session) : Prop where
  notes : session.Logged noted
  reads : baseOf noted.space root options = .ok base
  saves : noted.space.save output (sheetText options found base).toUTF8 = (saved, none)
  records : Session.Logged { noted with space := saved } after

theorem wrote_of_succeeded (h : generate root output options session = .ok report after)
    (hsucceeded : report.succeeded = true) : ∃ found count base noted saved,
      projectClasses session.space root options = .ok (found, count) ∧
      Wrote root output options found base session noted saved after ∧
      report = sheetReport output options found base := by
  rcases write_cases session root output options with
    ⟨failure, -, written, hwrite, -, -, -⟩ |
    ⟨found, count, base, noted, saved, hwrite, hfound, hnoted, hbase, hsave⟩
  · rw [generate_of_error hwrite] at h
    split at h
    · obtain ⟨rfl, -⟩ := EStateM.Result.ok.inj h
      cases hsucceeded
    · cases h
  · rw [generate_of_ok hwrite] at h
    obtain ⟨rfl, rfl⟩ := EStateM.Result.ok.inj h
    exact ⟨found, count, base, noted, saved, hfound,
      ⟨hnoted, hbase, hsave, Session.logged_emit _ _⟩, rfl⟩

namespace Wrote

variable {found : List String} {base : String} {noted renoted : Session} {saved : Workspace}
  {place : Location}

theorem grownSaved (h : Wrote root output options found base session noted saved after) :
    noted.Grown [session.space.resolve output] { noted with space := saved } := by
  have hsaves := Workspace.growsAt_save noted.space output (sheetText options found base).toUTF8
  rw [h.saves, h.notes.files.resolve] at hsaves
  exact ⟨rfl, hsaves.mono (List.subset_append_left _ _)⟩

theorem proper (h : Wrote root output options found base session noted saved after)
    (hproper : session.space.Proper) (hspelled : output.Spelled) : after.space.Proper := by
  have hsaved := (h.notes.proper hproper).save hspelled (sheetText options found base).toUTF8
  rw [h.saves] at hsaved
  exact h.records.proper hsaved

theorem baseOf_again (h : Wrote root output options found base session noted saved after)
    (hrooted : session.space.RootedAt root place) (hproper : session.space.Proper)
    (hafter : after.space.Proper)
    (hbase : options.includeBase = true →
      session.space.resolve ((namedBase? options).getD (projectBase root)) ∉
        session.space.resolve output :: session.logFiles)
    (hrenoted : after.Logged renoted) : baseOf renoted.space root options = .ok base := by
  have hgrown := (h.grownSaved.trans (h.records.grown _)).trans (hrenoted.grown _)
  have hfirst := h.notes.files.growsAt.rootedAt hrooted (h.notes.proper hproper).tree
  have hagain := hgrown.files.rootedAt hfirst (hrenoted.proper hafter).tree
  refine baseOf_of_growsAt hgrown.files hfirst hagain (fun hinclude => ?_) h.reads
  rw [h.notes.files.resolve, h.notes.logFiles]
  exact hbase hinclude

theorem save_again (h : Wrote root output options found base session noted saved after)
    (houtput : session.space.resolve output ∉ session.logFiles) (hrenoted : after.Logged renoted) :
    ∃ resaved, renoted.space.save output (sheetText options found base).toUTF8 = (resaved, none) ∧
      renoted.space.DiffersAt [] resaved := by
  obtain ⟨hparent, location, hlocate, hnode⟩ := Workspace.written_of_save h.saves
  have hkept := (h.records.trans hrenoted).files
  have hplace : location ∉ Session.logFiles { noted with space := saved } := by
    rw [Workspace.locate_eq_resolve hlocate, h.grownSaved.files.resolve, h.notes.files.resolve,
      h.grownSaved.logFiles, h.notes.logFiles]
    exact houtput
  exact Workspace.save_same (hkept.growsAt.isFolder hparent) (hkept.growsAt.locate hlocate)
    (hkept.growsAt.node? hplace hnode)

end Wrote

theorem projectClasses_again {before after : Workspace} {places : List Location} {found : List String}
    {count : Nat} {others : List Path} (hgrows : before.GrowsAt places after)
    (hbefore : before.tree.WellFormed) (hafter : after.tree.WellFormed)
    (hfound : projectClasses before root options = .ok (found, count))
    (hothers : sources after root options = .ok others)
    (hplace : ∀ file ∈ others, before.resolve file ∉ places)
    (hup : (∃ pattern ∈ options.patterns, ".." ∈ (Path.ofText pattern).parts) → ∀ location,
      after.tree.node? location = some .folder → before.tree.node? location = some .folder) :
    projectClasses after root options = .ok (found, others.length) := by
  obtain ⟨files, hsources, hclasses⟩ := bind_eq_ok.1 hfound
  have hsame : ∀ file, file ∈ others ↔ file ∈ files := fun file =>
    mem_sources_of_growsAt hgrows hbefore hafter hsources hothers
      (fun file hfile => hgrows.resolve file ▸ hplace file hfile) hup
  have hread : ∀ file ∈ files, after.read file = before.read file := by
    intro file hfile
    obtain ⟨location, bytes, hlocate, hnode⟩ := exists_file_of_mem_sources hsources hfile
    have hbytes := Workspace.read_eq_ok.2 ⟨location, hlocate, hnode⟩
    rw [hgrows.read (hplace file ((hsame file).2 hfile)) hbytes, hbytes]
  split at hclasses
  · rename_i classes hclass
    obtain ⟨rfl, -⟩ := Prod.mk.inj (Except.ok.inj hclasses)
    exact bind_eq_ok.2 ⟨others, hothers, by rw [filesClasses_congr hclass hsame hread]⟩
  · cases hclasses

theorem generate_same {found : List String} {files : Nat} {base : String}
    (hfound : projectClasses session.space root options = .ok (found, files))
    (hbase : ∀ noted, session.Logged noted → baseOf noted.space root options = .ok base)
    (hsave : ∀ noted, session.Logged noted → ∃ saved,
      noted.space.save output (sheetText options found base).toUTF8 = (saved, none) ∧
        noted.space.DiffersAt [] saved) :
    ∃ after, generate root output options session =
        .ok (sheetReport output options found base) after ∧
      session.space.DiffersAt session.logFiles after.space := by
  obtain ⟨noted, hnoted, hwrite⟩ := write_of_classes hfound output
  obtain ⟨saved, hsaved, hsame⟩ := hsave noted hnoted
  simp only [hbase noted hnoted, hsaved] at hwrite
  refine ⟨_, generate_of_ok hwrite, ?_⟩
  have hemit := (Session.logged_emit { noted with space := saved }
    (successRecord root output (Classification.ofCompiled options.naming found)
      (sheetText options found base).toUTF8.size noted.elapsed)).files
  have hlogs : Session.logFiles { noted with space := saved } = session.logFiles := hnoted.logFiles
  rw [hlogs] at hemit
  exact (hnoted.files.trans (hsame.mono (List.nil_subset _))).trans hemit

end Again

/-- Generating again changes nothing but the log files and reports the same. The condition on double dots
is that no pattern looks through a folder that the first pass has made. -/
theorem generate_again {session after : Session} {root output : Path} {options : Options}
    {report : Report} (hproper : session.space.Proper) (hspelled : output.Spelled)
    (h : generate root output options session = .ok report after) (hsucceeded : report.succeeded = true)
    (houtput : session.space.resolve output ∉ session.logFiles)
    (hfiles : ∀ files, sources after.space root options = .ok files → ∀ file ∈ files,
      session.space.resolve file ∉ session.space.resolve output :: session.logFiles)
    (hbase : options.includeBase = true →
      session.space.resolve ((namedBase? options).getD (projectBase root)) ∉
        session.space.resolve output :: session.logFiles)
    (hup : (∃ pattern ∈ options.patterns, ".." ∈ (Path.ofText pattern).parts) → ∀ location,
      after.space.tree.node? location = some .folder →
        session.space.tree.node? location = some .folder) :
    ∃ again later, generate root output options after = .ok again later ∧
      after.space.DiffersAt session.logFiles later.space ∧
      ((∃ files, sources after.space root options = .ok files) → again = report) ∧
      ∀ failure, sources after.space root options = .error failure →
        (∃ names, failure = .file { fault := .tooLong, path := root.below names }) ∧
          again = { output, outcome := .failed failure.message } := by
  obtain ⟨found, count, base, noted, saved, hfound, hwrote, rfl⟩ := wrote_of_succeeded h hsucceeded
  have hgrown : session.Grown [session.space.resolve output] after := grown_of_generate h
  have hafter : after.space.Proper := hwrote.proper hproper hspelled
  obtain ⟨files, hsources, -⟩ := bind_eq_ok.1 hfound
  obtain ⟨hroot, -, -⟩ := sources_eq_ok hsources
  have hrooted := Workspace.rootedAt_of_look hproper.tree hroot
  cases hothers : sources after.space root options with
  | error failure =>
    have hlook : after.space.look root = .ok (some .folder) := by
      rw [Workspace.look_of_locate (hgrown.files.locate hrooted.located),
        hgrown.files.folder hrooted.folder]
    obtain ⟨first, pattern, rest, hpatterns, -, hfails⟩ := (sources_eq_error hlook).1 hothers
    have hpattern : pattern ∈ options.patterns := by simp [hpatterns]
    obtain ⟨names, rfl⟩ := (scannedBy_eq_error hafter.tree hlook hfails).resolve_left
      fun ⟨fault, hparts, _⟩ => sources_of_partsOf_error hpattern hparts hsources
    have hagain := generate_of_sources_error hothers output
    refine ⟨_, _, hagain, ?_, nofun, ?_⟩
    · exact hgrown.logFiles ▸ (Session.logged_emit after _).files
    · rintro _ ⟨⟩
      exact ⟨⟨names, rfl⟩, rfl⟩
  | ok others =>
    have hagain := projectClasses_again hgrown.files hproper.tree hafter.tree hfound hothers
      (hfiles others hothers) hup
    obtain ⟨later, hlater, hdiffers⟩ := generate_same hagain
      (fun _ hrenoted => hwrote.baseOf_again hrooted hproper hafter hbase hrenoted)
      (fun _ hrenoted => hwrote.save_again houtput hrenoted)
    exact ⟨_, later, hlater, hgrown.logFiles ▸ hdiffers, fun _ => rfl, nofun⟩

theorem generate_again_page :
    let session := recorded Log.debug [
      (["p"], .folder),
      (["p", "page.html"], .file "<p class=\"vibe-flex\">".toUTF8)]
    ∃ report after again later,
      generate (Path.ofText "p") (Path.ofText "p/css/site.css") {} session = .ok report after ∧
      report.succeeded = true ∧
      generate (Path.ofText "p") (Path.ofText "p/css/site.css") {} after = .ok again later ∧
      again = report ∧
      later.space.tree.bytes? ["p", "css", "site.css"] =
        after.space.tree.bytes? ["p", "css", "site.css"] := by
  intro session
  have hcheck : (match generate (Path.ofText "p") (Path.ofText "p/css/site.css") {} session with
    | .ok report after => report.succeeded &&
      decide (sources after.space (Path.ofText "p") {} = .ok [Path.ofText "p/page.html"])
    | .error .. => false) = true := by decide +kernel
  cases hgenerate : generate (Path.ofText "p") (Path.ofText "p/css/site.css") {} session with
  | error failure after =>
    rw [hgenerate] at hcheck
    cases hcheck
  | ok report after =>
    simp only [hgenerate, Bool.and_eq_true, decide_eq_true_eq] at hcheck
    obtain ⟨hsucceeded, hsources⟩ := hcheck
    obtain ⟨again, later, hagain, hdiffers, hsame, -⟩ :=
      generate_again (by decide) (by decide) hgenerate hsucceeded (by decide)
        (fun files hfiles => by
          rw [← Except.ok.inj (hsources.symm.trans hfiles)]
          decide)
        (by decide) (fun hup => absurd hup (by decide))
    refine ⟨report, after, again, later, rfl, hsucceeded, hagain, hsame ⟨_, hsources⟩, ?_⟩
    exact hdiffers.spares.same _ (by decide)

/-- A pass that succeeds is repeated without a change, unless its output is scanned or is its base sheet. -/
def Repeats (root output : Path) (options : Options) (session : Session) : Prop :=
  ∀ report after, generate root output options session = .ok report after → report.succeeded = true →
    (∀ files, sources after.space root options = .ok files → ∀ file ∈ files,
      session.space.resolve file ≠ session.space.resolve output) →
    (options.includeBase = true →
      session.space.resolve ((namedBase? options).getD (projectBase root)) ≠
        session.space.resolve output) →
    ∃ later, generate root output options after = .ok report later ∧
      ∀ location, later.space.tree.bytes? location = after.space.tree.bytes? location

def changesAgain (root output : Path) (options : Options) (session : Session) (place : Location) : Bool :=
  match generate root output options session with
  | .error .. => false
  | .ok report after =>
    report.succeeded &&
    (match sources after.space root options with
      | .ok files => files.all fun file => session.space.resolve file ≠ session.space.resolve output
      | .error _ => true) &&
    match generate root output options after with
    | .ok again later =>
      again ≠ report || later.space.tree.bytes? place ≠ after.space.tree.bytes? place
    | .error .. => true

theorem not_repeats {root output : Path} {options : Options} {session : Session} (place : Location)
    (hbase : options.includeBase = false) (h : changesAgain root output options session place = true) :
    ¬Repeats root output options session := by
  intro hrepeats
  rw [changesAgain] at h
  cases hgenerate : generate root output options session with
  | error failure after =>
    rw [hgenerate] at h
    cases h
  | ok report after =>
    simp only [hgenerate, Bool.and_eq_true] at h
    obtain ⟨⟨hsucceeded, hfiles⟩, hagain⟩ := h
    obtain ⟨later, hlater, hbytes⟩ := hrepeats report after hgenerate hsucceeded
      (fun files hsources file hfile => by
        simp only [hsources, List.all_eq_true, decide_eq_true_eq] at hfiles
        exact hfiles file hfile)
      (fun hinclude => by rw [hbase] at hinclude; cases hinclude)
    simp [hlater, hbytes] at hagain

/-- Three ways in which a second pass is another one: a pattern goes up out of a folder that the first pass
has made, the passes are recorded in a file, and a pattern asks the new folder for a name that is too long. -/
theorem not_all_repeat :
    let files : List (Location × Node) := [
      (["p"], .folder),
      (["p", "page.html"], .file "<p class=\"vibe-flex\">".toUTF8)]
    ¬Repeats (Path.ofText "p") (Path.ofText "p/out/site.css")
      { scanPatterns := ["*.razor", "out/../page.html"], includeBase := false }
      { space := { tree := { nodes := files } } } ∧
    ¬Repeats (Path.ofText "p") (Path.ofText "p/out/site.css") { includeBase := false }
      (recorded Log.debug files) ∧
    ¬Repeats (Path.ofText "p") (Path.ofText "p/out/site.css")
      { scanPatterns := ["*.razor", "out/" ++ String.ofList (List.replicate 256 'n')],
        includeBase := false }
      { space := { tree := { nodes := files } } } := by
  refine ⟨not_repeats [] rfl ?_, not_repeats ["log.jsonl"] rfl ?_, not_repeats [] rfl ?_⟩ <;>
    decide +kernel

end Pass

end UtilityCss
