import UtilityCss.Pass.Generate
import UtilityCss.Proofs.Assembly
import UtilityCss.Proofs.Attempts
import UtilityCss.Proofs.LogFiles

/-!
# The files of a pass

A pass that generates a style sheet reads all that it needs before it writes. When it fails, the files are
what they were; when it succeeds, one of them holds the style sheet of what stood in the tree before. The
log files of the session are the only others that a pass may change, since its records go there.
-/

namespace UtilityCss

namespace Text

theorem orderedSet_of_pairwise {texts : List String} (h : texts.Pairwise (· < ·)) :
    orderedSet texts = texts := by
  induction texts with
  | nil => rfl
  | cons text rest ih =>
    obtain ⟨hfirst, hrest⟩ := List.pairwise_cons.1 h
    have hset : orderedSet (text :: rest) = insertOrdered text (orderedSet rest) := rfl
    rw [hset, ih hrest]
    cases rest with
    | nil => rfl
    | cons next rest => rw [insertOrdered, if_pos (hfirst next List.mem_cons_self)]

@[simp] theorem orderedSet_orderedSet (texts : List String) :
    orderedSet (orderedSet texts) = orderedSet texts :=
  orderedSet_of_pairwise (pairwise_orderedSet texts)

end Text

theorem Classification.total_ofCompiled (naming : Naming) (tokens : List String) :
    (ofCompiled naming tokens).total = (Text.orderedSet tokens).length := by
  simp only [total, ofCompiled, split]
  exact (List.length_eq_length_filter_add _).symm

namespace Pass

/-! ### Reading -/

theorem exists_of_projectClasses {space : Workspace} {root : Path} {options : Options}
    {found : List String} {files : Nat} (h : projectClasses space root options = .ok (found, files)) :
    ∃ texts, found = Text.orderedSet texts := by
  obtain ⟨paths, -, h⟩ := bind_eq_ok.1 h
  split at h
  · rename_i classes hclasses
    obtain ⟨texts, -, rfl⟩ := map_eq_ok.1 hclasses
    exact ⟨texts.flatten, (Prod.mk.inj (Except.ok.inj h)).1.symm⟩
  · cases h

theorem projectClasses_of_error {space : Workspace} {root : Path} {options : Options} {failure : Failure}
    (h : sources space root options = .error failure) :
    projectClasses space root options = .error failure :=
  bind_eq_error.2 (.inl h)

def baseOf (space : Workspace) (root : Path) (options : Options) : Except Failure String :=
  if options.includeBase then baseText space (some root) options else .ok ""

section Base

variable {places : List Location} {before after : Workspace} {root : Path} {options : Options}

theorem keptBase?_congr (h : before.DiffersAt places after) (root : Option Path) :
    keptBase? after root = keptBase? before root := by
  cases root with
  | none => rfl
  | some root =>
    have hkind := h.look (projectBase root)
    rw [keptBase?, keptBase?]
    generalize after.look (projectBase root) = new at hkind ⊢
    generalize before.look (projectBase root) = old at hkind ⊢
    rcases new with _ | (_ | _ | _) <;> rcases old with _ | (_ | _ | _) <;>
      simp_all [Except.map, Node.isFolder, Node.isFile]

theorem baseFile?_congr (h : before.DiffersAt places after) (root : Option Path) :
    baseFile? after root options = baseFile? before root options := by
  rw [baseFile?, baseFile?, keptBase?_congr h]

theorem baseOf_congr (h : before.DiffersAt places after)
    (hbase : ∀ path, options.includeBase = true →
      baseFile? before (some root) options = .ok (some path) → before.resolve path ∉ places) :
    baseOf after root options = baseOf before root options := by
  rw [baseOf, baseOf]
  cases hinclude : options.includeBase with
  | false => rfl
  | true =>
    rw [if_pos rfl, if_pos rfl, baseText, baseText, baseFile?_congr h]
    split
    · rfl
    · rename_i path hpath
      rw [readBase, readBase, Workspace.readText, Workspace.readText,
        h.read (hbase path hinclude hpath)]
    · rfl

end Base

/-! ### Writing -/

section Writing

variable {session after : Session} {root output : Path} {options : Options}

theorem optionalBase_apply (session : Session) (root : Path) (options : Options) :
    ∃ noted, session.Logged noted ∧ optionalBase (some root) options session =
      match baseOf noted.space root options with
      | .ok base => .ok base noted
      | .error failure => .error failure noted := by
  cases hinclude : options.includeBase with
  | false => exact ⟨session, .refl session, by simp [optionalBase, baseOf, hinclude]⟩
  | true =>
    refine ⟨session.noteAll (baseNotes session.space (some root) options),
      Session.logged_noteAll _ session, ?_⟩
    simp only [optionalBase, baseOf, loadBase, hinclude, if_pos, Task.bind_apply, Task.ask_apply,
      Task.noteAll_apply, Task.look_apply]
    cases baseText _ (some root) options <;> rfl

theorem scan_apply (session : Session) (root : Path) (options : Options) :
    scan root options session =
      match projectClasses session.space root options with
      | .ok (found, files) => .ok found (session.note (scanNote root files found.length))
      | .error failure => .error failure session := by
  simp only [scan, Task.bind_apply, Task.look_apply]
  rcases projectClasses session.space root options with _ | ⟨found, files⟩ <;> rfl

theorem write_of_error {failure : Failure} (h : projectClasses session.space root options = .error failure)
    (output : Path) : write root output options session = .error failure session := by
  simp only [write, Task.bind_apply, scan_apply, h]

theorem write_of_classes {found : List String} {files : Nat}
    (h : projectClasses session.space root options = .ok (found, files)) (output : Path) :
    ∃ noted, session.Logged noted ∧ write root output options session =
      match baseOf noted.space root options with
      | .error failure => .error failure noted
      | .ok base =>
        match noted.space.save output (sheetText options found base).toUTF8 with
        | (saved, some error) => .error (.file error) { noted with space := saved }
        | (saved, none) =>
          .ok (Classification.ofCompiled options.naming found,
            (sheetText options found base).toUTF8.size) { noted with space := saved } := by
  obtain ⟨noted, hnoted, hbase⟩ :=
    optionalBase_apply (session.note (scanNote root files found.length)) root options
  refine ⟨noted, (Session.logged_emit session _).trans hnoted, ?_⟩
  simp only [write, Task.bind_apply, scan_apply, h, hbase]
  cases baseOf noted.space root options with
  | error failure => rfl
  | ok base =>
    simp only [Task.explain_apply, Task.change_apply]
    rcases noted.space.save output (sheetText options found base).toUTF8 with ⟨saved, _ | error⟩ <;> rfl

theorem write_cases (session : Session) (root output : Path) (options : Options) :
    (∃ failure noted after, write root output options session = .error failure after ∧
      session.Logged noted ∧ noted.space.GainsFolders after.space ∧ after.logger = noted.logger) ∨
    ∃ found files base noted saved,
      write root output options session =
        .ok (Classification.ofCompiled options.naming found, (sheetText options found base).toUTF8.size)
          { noted with space := saved } ∧
      projectClasses session.space root options = .ok (found, files) ∧
      session.Logged noted ∧ baseOf noted.space root options = .ok base ∧
      noted.space.save output (sheetText options found base).toUTF8 = (saved, none) := by
  cases hfound : projectClasses session.space root options with
  | error failure =>
    exact .inl ⟨failure, session, session, write_of_error hfound output, .refl session, .refl _, rfl⟩
  | ok result =>
    obtain ⟨found, files⟩ := result
    obtain ⟨noted, hlogged, hwrite⟩ := write_of_classes hfound output
    cases hread : baseOf noted.space root options with
    | error failure =>
      rw [hread] at hwrite
      exact .inl ⟨failure, noted, noted, hwrite, hlogged, .refl _, rfl⟩
    | ok base =>
      cases hsave : noted.space.save output (sheetText options found base).toUTF8 with
      | mk saved error =>
        simp only [hread, hsave] at hwrite
        cases error with
        | some error =>
          exact .inl ⟨.file error, noted, { noted with space := saved }, hwrite, hlogged,
            Workspace.gainsFolders_of_save hsave, rfl⟩
        | none => exact .inr ⟨found, files, base, noted, saved, hwrite, rfl, hlogged, hread, hsave⟩

theorem generate_of_error {failure : Failure}
    (hwrite : write root output options session = .error failure after) :
    generate root output options session =
      if failure.isReported then
        .ok { output, outcome := .failed failure.message }
          (after.emit (failureRecord root failure.message))
      else .error failure after := by
  simp only [generate, Task.bind_apply, Task.attempt_apply, hwrite]
  split <;> rfl

theorem generate_of_sources_error {failure : Failure}
    (h : sources session.space root options = .error failure) (output : Path) :
    generate root output options session =
      if failure.isReported then
        .ok { output, outcome := .failed failure.message }
          (session.emit (failureRecord root failure.message))
      else .error failure session :=
  generate_of_error (write_of_error (projectClasses_of_error h) output)

theorem generate_of_ok {classes : Classification} {size : Nat}
    (hwrite : write root output options session = .ok (classes, size) after) :
    generate root output options session = .ok { output, outcome := .written classes size }
      (after.emit (successRecord root output classes size after.elapsed)) := by
  simp only [generate, Task.bind_apply, Task.attempt_apply, hwrite, Task.ask_apply, Task.emit_apply,
    Task.pure_apply]

end Writing

/-- What a pass changes. The style sheet is made from the classes and the base sheet of the tree as it was
before. A log file holds the records of the pass as well, which count when the base sheet or the output is
one of them. -/
theorem generate_changes_output_only {session after : Session} {root output : Path}
    {options : Options} {report : Report}
    (h : generate root output options session = .ok report after) :
    (report.succeeded = false → session.space.tree.Spares session.logFiles after.space.tree) ∧
    (report.succeeded = true → ∃ found files base classes,
      projectClasses session.space root options = .ok (found, files) ∧ found.Nodup ∧
      ((∀ path, options.includeBase = true →
          baseFile? session.space (some root) options = .ok (some path) →
          session.space.resolve path ∉ session.logFiles) →
        baseOf session.space root options = .ok base) ∧
      (session.space.resolve output ∉ session.logFiles →
        after.space.tree.bytes? (session.space.resolve output) =
          some (sheetText options found base).toUTF8) ∧
      (∀ location, location ∉ session.logFiles → location ≠ session.space.resolve output →
        after.space.tree.bytes? location = session.space.tree.bytes? location) ∧
      (∀ location, location ≠ session.space.resolve output →
        (after.space.tree.bytes? location).isSome = (session.space.tree.bytes? location).isSome) ∧
      report = { output, outcome := .written classes (sheetText options found base).toUTF8.size } ∧
      classes = Classification.ofCompiled options.naming found ∧ classes.total = found.length ∧
      classes.total = classes.recognized.length + classes.unknown.length) := by
  rcases write_cases session root output options with
    ⟨failure, noted, written, hwrite, hnoted, hgains, hlogger⟩ |
    ⟨found, files, base, noted, saved, hwrite, hfound, hnoted, hbase, hsave⟩
  · rw [generate_of_error hwrite] at h
    split at h
    · obtain ⟨rfl, rfl⟩ := EStateM.Result.ok.inj h
      have hemit := Session.logged_emit written (failureRecord root failure.message)
      have hfiles : written.logFiles = session.logFiles := by
        rw [← hnoted.logFiles, Session.logFiles, Session.logFiles, hlogger]
      rw [Report.succeeded]
      refine ⟨fun _ => ?_, fun hsucceeded => absurd hsucceeded Bool.false_ne_true⟩
      exact (hnoted.files.spares.trans (hgains.spares _)).trans (hfiles ▸ hemit.files.spares)
    · cases h
  · rw [generate_of_ok hwrite] at h
    obtain ⟨rfl, rfl⟩ := EStateM.Result.ok.inj h
    rw [Report.succeeded]
    refine ⟨fun hfailed => absurd hfailed.symm Bool.false_ne_true, fun _ => ?_⟩
    have hemit := (Session.logged_emit { noted with space := saved }
      (successRecord root output (Classification.ofCompiled options.naming found)
        (sheetText options found base).toUTF8.size noted.elapsed)).files.spares
    have hfiles : Session.logFiles { noted with space := saved } = session.logFiles := hnoted.logFiles
    have hsaved := Workspace.bytes?_of_save hsave
    rw [hfiles] at hemit
    rw [hnoted.files.resolve] at hsaved
    obtain ⟨texts, rfl⟩ := exists_of_projectClasses hfound
    refine ⟨_, files, base, _, hfound, ?_, ?_, ?_, ?_, ?_, rfl, rfl, ?_, rfl⟩
    · refine (Text.pairwise_orderedSet texts).imp ?_
      rintro text _ hlt rfl
      exact String.lt_irrefl text hlt
    · intro hbasefile
      rwa [← baseOf_congr hnoted.files hbasefile]
    · intro houtput
      rw [hemit.same _ houtput, hsaved, if_pos rfl]
    · intro location hlog hother
      rw [hemit.same _ hlog, hsaved, if_neg hother]
      exact hnoted.files.spares.same location hlog
    · intro location hother
      rw [hemit.noneNew, hsaved, if_neg hother]
      exact hnoted.files.spares.noneNew location
    · rw [Classification.total_ofCompiled, Text.orderedSet_orderedSet]

def recorded (level : Int) (nodes : List (Location × Node)) : Session where
  space := { tree := { nodes := (["log.jsonl"], .file ByteArray.empty) :: nodes } }
  logger := { level, handlers := [.file (Path.ofText "/log.jsonl")], configured := true }

theorem generate_changes_output_only_page :
    let session := recorded Log.debug [
      (["p"], .folder),
      (["p", "a.html"], .file "<p class=\"vibe-flex\">".toUTF8)]
    ∃ report after,
      generate (Path.ofText "p") (Path.ofText "p/out.css") { includeBase := false } session =
        .ok report after ∧
      report.succeeded = true ∧
      after.space.tree.bytes? ["p", "out.css"] = some ".vibe-flex \x7b display: flex; \x7d\n".toUTF8 ∧
      after.space.tree.bytes? ["p", "a.html"] = session.space.tree.bytes? ["p", "a.html"] := by
  intro session
  have hcheck : (match generate (Path.ofText "p") (Path.ofText "p/out.css") { includeBase := false }
      session with
    | .ok report _ => report.succeeded
    | .error .. => false) = true := by decide +kernel
  cases hgenerate : generate (Path.ofText "p") (Path.ofText "p/out.css") { includeBase := false }
      session with
  | error failure after =>
    rw [hgenerate] at hcheck
    cases hcheck
  | ok report after =>
    rw [hgenerate] at hcheck
    obtain ⟨found, files, base, classes, hfound, -, hbase, hbytes, hothers, -⟩ :=
      (generate_changes_output_only hgenerate).2 hcheck
    replace hbase := hbase fun _ hinclude => absurd hinclude Bool.false_ne_true
    replace hbytes := hbytes (by decide)
    have hclasses : projectClasses session.space (Path.ofText "p") { includeBase := false } =
        .ok (["vibe-flex"], 1) := by decide +kernel
    obtain ⟨rfl, rfl⟩ := Prod.mk.inj (Except.ok.inj (hclasses.symm.trans hfound))
    obtain rfl := Except.ok.inj hbase
    refine ⟨report, after, rfl, hcheck, hbytes.trans ?_, hothers ["p", "a.html"] (by decide) (by decide)⟩
    decide +kernel

/-- A pass that fails writes a record about it, also into a file. -/
theorem failed_pass_changes_log_file :
    let session := recorded Log.warning []
    ∃ report after, generate (Path.ofText "p") (Path.ofText "out.css") {} session = .ok report after ∧
      report.succeeded = false ∧
      after.space.tree.bytes? ["log.jsonl"] ≠ session.space.tree.bytes? ["log.jsonl"] := by
  intro session
  refine ⟨_, _, rfl, rfl, ?_⟩
  decide +kernel

end Pass

end UtilityCss
