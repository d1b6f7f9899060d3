import UtilityCss.Proofs.JsonText
import UtilityCss.Proofs.OwnEvents

/-!
# Runs of a logger

A program configures its logger, sets the level and writes records, in any order and as often as it likes. What
counts is the first configuring and every one that is forced after it. The last of these decides on the handlers:
the terminal, and the log file if there is one that can be opened. So no record is written twice, and one that a
handler cannot write is left out by this handler.
-/

namespace UtilityCss

namespace Log

structure Setup where
  level : Option String := none
  format : Option String := none
  force : Bool := false
  environment : Environment := []

inductive Step
  | configure (setup : Setup)
  | setLevel (level : Int)
  | log (level : Int) (message : String) (arguments : List Value := [])
  | logPass (event : String) (data : Option Entries := none) (level : Int := debug)

namespace Step

def record? : Step → Option Record
  | log level message arguments => some { level, message, arguments }
  | logPass event data level => some { level, message := event, data := (data.map .mapping).getD .null }
  | _ => none

def level? : Step → Option Int
  | setLevel level => some level
  | _ => none

def IsForced : Step → Prop
  | configure setup => setup.force = true
  | _ => False

end Step

def Format.canWrite (record : Record) : Format → Bool
  | text => record.event?.isSome && (!record.data.holds || record.data.entries?.any Value.entriesAreShowable)
  | json => record.event?.isSome && record.data.hasJson

theorem Format.isSome_apply (format : Format) (time : String) (record : Record) :
    (format.apply time record).isSome = format.canWrite record := by
  cases format with
  | json => exact Record.isSome_json?
  | text =>
    rw [apply, Record.text?, canWrite]
    cases record.event? with
    | none => rfl
    | some event =>
      cases hholds : record.data.holds with
      | false => rfl
      | true =>
        cases hentries : record.data.entries? with
        | none => rfl
        | some entries =>
          cases hshowable : Value.entriesAreShowable entries <;> simp [bind, hshowable]

/-- A record that no format leaves out. -/
structure Record.IsOrdinary (record : Record) : Prop where
  arguments : record.arguments = []
  level : record.level.natAbs < Nat.pow 10 4300
  data : record.data = .null ∨ ∃ entries, record.data = .mapping entries
  plain : record.data.IsPlain
  short : ∀ n, record.data.Contains n → n.natAbs < Nat.pow 10 4300

theorem Record.IsOrdinary.canWrite {record : Record} (h : record.IsOrdinary) (format : Format) :
    format.canWrite record = true := by
  have hevent : record.event?.isSome = true := by
    rw [Record.event?, if_pos (Value.isWritable_iff.2 h.level), h.arguments]
    rfl
  have hjson : record.data.hasJson = true := h.plain.hasJson_iff.2 h.short
  cases format with
  | json => rw [Format.canWrite, hevent, hjson, Bool.and_self]
  | text =>
    rw [Format.canWrite, hevent, Bool.true_and]
    rcases h.data with hnull | ⟨entries, hentries⟩
    · rw [hnull]
      rfl
    · have hshowable : Value.entriesAreShowable entries = true := by
        rwa [h.plain.hasJson_eq_isShowable, hentries, Value.isShowable] at hjson
      have hsome : record.data.entries? = some entries := by rw [hentries]; rfl
      rw [hsome, Option.any_some, hshowable, Bool.or_true]

namespace Setup

def chosenLevel (setup : Setup) : Int :=
  levelOf (Logger.chosen setup.level setup.environment Environment.level "INFO")

def chosenFormat (setup : Setup) : Format :=
  Format.ofName (Logger.chosen setup.format setup.environment Environment.format "text")

def file? (setup : Setup) (space : Workspace) : Option Path :=
  ((setup.environment.lookup Environment.file).filter (· ≠ "")).map fun name => (Path.ofText name).absoluteAt space.here

def opened? (setup : Setup) (space : Workspace) : Option Path :=
  (setup.file? space).filter fun path => (openFile space (.file path)).isOk

def logger (setup : Setup) (space : Workspace) : Logger where
  level := setup.chosenLevel
  handlers := .terminal setup.chosenFormat :: (setup.opened? space).toList.map .file
  configured := true

theorem file?_eq_some_iff {setup : Setup} {space : Workspace} {path : Path} : setup.file? space = some path ↔
    ∃ name, setup.environment.lookup Environment.file = some name ∧ name ≠ "" ∧
      path = (Path.ofText name).absoluteAt space.here := by
  simp only [file?, Option.map_eq_some_iff, Option.filter_eq_some_iff, decide_eq_true_eq, and_assoc, @eq_comm _ path]

theorem opened?_eq_some_iff {setup : Setup} {space : Workspace} {path : Path} : setup.opened? space = some path ↔
    ∃ name, setup.environment.lookup Environment.file = some name ∧ name ≠ "" ∧
      path = (Path.ofText name).absoluteAt space.here ∧ ∃ after, openFile space (.file path) = .ok after := by
  have hopen : (openFile space (.file path)).isOk = true ↔ ∃ after, openFile space (.file path) = .ok after := by
    cases openFile space (.file path) with
    | ok after => simp [Except.isOk, Except.toBool]
    | error error => simp [Except.isOk, Except.toBool]
  rw [opened?, Option.filter_eq_some_iff, file?_eq_some_iff, hopen]
  constructor
  · rintro ⟨⟨name, hname, hne, hpath⟩, hafter⟩
    exact ⟨name, hname, hne, hpath, hafter⟩
  · rintro ⟨name, hname, hne, hpath, hafter⟩
    exact ⟨⟨name, hname, hne, hpath⟩, hafter⟩

theorem fresh_eq (setup : Setup) (space : Workspace) :
    Logger.fresh setup.level setup.format setup.environment space =
      { level := setup.chosenLevel, configured := true,
        handlers := .terminal setup.chosenFormat :: (setup.file? space).toList.map .file } := by
  have hfile : Logger.fileHandlers setup.environment space = (setup.file? space).toList.map .file := by
    rw [Logger.fileHandlers, file?]
    split
    · rename_i hname
      rw [hname]
      rfl
    · rename_i hname
      rw [hname]
      rfl
    · rename_i name hempty hname
      rw [hname, Option.filter_some_pos (by simpa using hempty)]
      rfl
  rw [Logger.fresh, hfile]
  rfl

end Setup

/-! ### Log files -/

section Files

variable {space after : Workspace} {path : Path} {handler : Handler}

theorem openFile_cases (h : openFile space (.file path) = .ok after) :
    (after = space ∧ (space.tree.bytes? (space.resolve path)).isSome) ∨
      (space.tree.bytes? (space.resolve path) = none ∧ space.write path ByteArray.empty = .ok after) := by
  rw [openFile] at h
  cases hread : space.read path with
  | ok bytes =>
    rw [hread] at h
    obtain ⟨location, hlocate, hnode⟩ := bind_eq_ok.1 hread
    rw [Workspace.locate_eq_resolve hlocate] at hnode
    refine .inl ⟨(Except.ok.inj h).symm, ?_⟩
    rw [FileTree.bytes?]
    split at hnode
    · rename_i hfile
      rw [hfile]
      rfl
    · cases hnode
    · cases hnode
  | error error =>
    -- What can be written but not read is not there, since a folder cannot be written.
    rw [hread] at h
    refine .inr ⟨?_, h⟩
    obtain ⟨location, hlocate, -⟩ := bind_eq_ok.1 h
    rw [← Workspace.locate_eq_resolve hlocate, FileTree.bytes?]
    split
    · rename_i hfile
      rw [Workspace.read, hlocate] at hread
      simp only [bind, Except.bind, hfile] at hread
      cases hread
    · rfl

theorem bytes?_of_openFile (h : openFile space handler = .ok after) {location : Location} {bytes : ByteArray}
    (hbytes : space.tree.bytes? location = some bytes) : after.tree.bytes? location = some bytes := by
  cases handler with
  | terminal format => rwa [← Except.ok.inj h]
  | file path =>
    rcases openFile_cases h with ⟨rfl, -⟩ | ⟨hnone, hwrite⟩
    · exact hbytes
    · rw [Workspace.bytes?_of_write hwrite, if_neg]
      · exact hbytes
      · rintro rfl
        rw [hnone] at hbytes
        cases hbytes

theorem isSome_bytes?_of_openFile (h : openFile space (.file path) = .ok after) :
    (after.tree.bytes? (space.resolve path)).isSome := by
  rcases openFile_cases h with ⟨rfl, hsome⟩ | ⟨-, hwrite⟩
  · exact hsome
  · rw [Workspace.bytes?_of_write hwrite, if_pos rfl]
    rfl

theorem here_of_openFile (h : openFile space handler = .ok after) : after.here = space.here := by
  cases handler with
  | terminal format => rw [← Except.ok.inj h]
  | file path =>
    rcases openFile_cases h with ⟨rfl, -⟩ | ⟨-, hwrite⟩
    · rfl
    · obtain ⟨location, -, hput⟩ := bind_eq_ok.1 hwrite
      split at hput
      · cases hput
      · rw [← Except.ok.inj hput]

theorem resolve_absoluteAt (h : ".." ∉ space.here) (path : Path) (other : Workspace) :
    other.resolve (path.absoluteAt space.here) = (path.absoluteAt space.here).parts := by
  have habsolute : (path.absoluteAt space.here).isAbsolute = true := by
    rw [Path.absoluteAt, Path.isAbsolute]
    split
    · rename_i hpath
      exact hpath
    · rfl
  have hup : ".." ∉ (path.absoluteAt space.here).parts := by
    refine Path.notMem_foldl_follow ?_
    split
    · exact List.not_mem_nil
    · exact h
  rw [Workspace.resolve, Path.resolve, habsolute, if_pos rfl, Path.foldl_follow hup, List.nil_append]

theorem bytes?_appendLine (space : Workspace) (path : Path) (line : Option String) (location : Location) :
    (appendLine space path line).tree.bytes? location =
      if location = path.parts then (space.tree.bytes? location).map (· ++ (line.elim "" (· ++ "\n")).toUTF8)
      else space.tree.bytes? location := by
  rw [appendLine]
  split
  · rename_i bytes hnode
    have hparts : path.parts ≠ [] := by
      intro hnil
      rw [hnil] at hnode
      cases hnode
    rw [FileTree.bytes?_put hparts]
    split
    · rename_i hlocation
      rw [hlocation, FileTree.bytes?, hnode, Option.map_some]
    · rfl
  · rename_i hnode
    split
    · rename_i hlocation
      have hnone : space.tree.bytes? path.parts = none := by
        rw [FileTree.bytes?]
        split
        · rename_i hfile
          exact absurd hfile (hnode _)
        · rfl
      rw [hlocation, hnone, Option.map_none]
    · rfl

end Files

structure Setup.Opens (setup : Setup) (space after : Workspace) (error : Option FileError) : Prop where
  here : after.here = space.here
  kept : ∀ {location : Location} {bytes : ByteArray}, space.tree.bytes? location = some bytes →
    after.tree.bytes? location = some bytes
  there : ∀ path, setup.opened? space = some path → (after.tree.bytes? (space.resolve path)).isSome
  failed : error.isSome ↔ (setup.file? space).isSome ∧ setup.opened? space = none

theorem Setup.opens_openFiles (setup : Setup) (space : Workspace) : ∃ after error,
    openFiles space (.terminal setup.chosenFormat :: (setup.file? space).toList.map .file) =
      (.terminal setup.chosenFormat :: (setup.opened? space).toList.map .file, after, error) ∧
      setup.Opens space after error := by
  have hterminal : openFile space (.terminal setup.chosenFormat) = .ok space := rfl
  cases hfile : setup.file? space with
  | none =>
    have hopened : setup.opened? space = none := by rw [opened?, hfile, Option.filter_none]
    rw [hopened]
    exact ⟨space, none, rfl, rfl, id, by simp [hopened], by simp [hfile]⟩
  | some path =>
    cases hopen : openFile space (.file path) with
    | error error =>
      have hopened : setup.opened? space = none := by
        rw [opened?, hfile, Option.filter_some_neg (by rw [hopen]; rfl)]
      refine ⟨space, some error, ?_, rfl, id, by simp [hopened], by simp [hfile, hopened]⟩
      simp only [openFiles, hterminal, hopen, hopened, Option.toList_some, Option.toList_none, List.map_cons,
        List.map_nil]
    | ok after =>
      have hopened : setup.opened? space = some path := by
        rw [opened?, hfile, Option.filter_some_pos (by rw [hopen]; rfl)]
      refine ⟨after, none, ?_, here_of_openFile hopen, bytes?_of_openFile hopen, ?_, by simp [hopened]⟩
      · simp only [openFiles, hterminal, hopen, hopened, Option.toList_some, List.map_cons, List.map_nil]
      · intro other hother
        rw [hopened] at hother
        rw [← Option.some.inj hother]
        exact isSome_bytes?_of_openFile hopen

end Log

namespace Session
open Log

def configureBy (session : Session) (setup : Setup) : Session × Option FileError :=
  { session with environment := setup.environment }.reconfigure setup.level setup.format setup.force

def perform (session : Session) : Step → Session
  | .configure setup => (session.configureBy setup).1
  | .setLevel level => { session with logger := session.logger.setLevel level }
  | .log level message arguments => session.emit { level, message, arguments }
  | .logPass event data level => session.emit { level, message := event, data := (data.map .mapping).getD .null }

def performAll (session : Session) (steps : List Step) : Session := steps.foldl perform session

variable {session start : Session} {setup : Setup} {step : Step} {later : List Step} {record : Record}

theorem performAll_concat (session : Session) (steps : List Step) (step : Step) :
    session.performAll (steps ++ [step]) = (session.performAll steps).perform step :=
  List.foldl_concat perform session step steps

theorem perform_of_record (h : step.record? = some record) : session.perform step = session.emit record := by
  cases step with
  | configure => cases h
  | setLevel => cases h
  | log => rw [← Option.some.inj h, perform]
  | logPass => rw [← Option.some.inj h, perform]

/-! ### Configuring -/

theorem configureBy_of_configured (hconfigured : session.logger.configured = true) (hforce : setup.force = false) :
    session.configureBy setup = ({ session with environment := setup.environment }, none) := by
  simp [configureBy, reconfigure, Logger.configure, hconfigured, hforce]

theorem configureBy_of_effective (h : setup.force = true ∨ session.logger.configured = false) :
    ∃ after error, session.configureBy setup = ({ session with
      environment := setup.environment, logger := setup.logger session.space, space := after }, error) ∧
      setup.Opens session.space after error := by
  obtain ⟨after, error, hopen, hopens⟩ := setup.opens_openFiles session.space
  refine ⟨after, error, ?_, hopens⟩
  have hskip : (session.logger.configured && !setup.force) = false := by
    rcases h with h | h <;> simp [h]
  simp only [configureBy, reconfigure, Logger.configure, hskip, Setup.fresh_eq, hopen]
  rfl

theorem perform_configure (session : Session) (setup : Setup) :
    (session.perform (.configure setup)).printed = session.printed ∧
      (session.perform (.configure setup)).space.here = session.space.here ∧
      ∀ location bytes, session.space.tree.bytes? location = some bytes →
        (session.perform (.configure setup)).space.tree.bytes? location = some bytes := by
  by_cases h : setup.force = true ∨ session.logger.configured = false
  · obtain ⟨after, error, hconfigure, hopens⟩ := configureBy_of_effective h
    rw [perform, hconfigure]
    exact ⟨rfl, hopens.here, fun _ _ hbytes => hopens.kept hbytes⟩
  · rw [not_or, Bool.not_eq_true, Bool.not_eq_false] at h
    rw [perform, configureBy_of_configured h.2 h.1]
    exact ⟨rfl, rfl, fun _ _ hbytes => hbytes⟩

theorem here_performAll (session : Session) (steps : List Step) :
    (session.performAll steps).space.here = session.space.here := by
  induction steps using List.reverseRecOn with
  | nil => rfl
  | append_singleton steps step ih =>
    rw [performAll_concat, ← ih]
    cases step with
    | configure setup => exact (perform_configure _ setup).2.1
    | setLevel => rfl
    | log => exact (logged_emit _ _).files.here
    | logPass => exact (logged_emit _ _).files.here

theorem configured_performAll (steps : List Step) (h : ∀ setup, .configure setup ∉ steps) :
    (session.performAll steps).logger.configured = session.logger.configured := by
  induction steps using List.reverseRecOn with
  | nil => rfl
  | append_singleton steps step ih =>
    rw [performAll_concat, ← ih fun setup hmem => h setup (List.mem_append_left _ hmem)]
    cases step with
    | configure setup => exact absurd (List.mem_append_right steps List.mem_cons_self) (h setup)
    | setLevel => rfl
    | log => rw [perform, (logged_emit _ _).logger]
    | logPass => rw [perform, (logged_emit _ _).logger]

/-! ### Records -/

theorem emit_of_handlers {format : Format} {file : Option Path}
    (hhandlers : session.logger.handlers = .terminal format :: file.toList.map .file)
    (hwrites : session.logger.writes record = true) : session.emit record = { session with
      printed := session.printed ++ (format.apply session.time record).toList
      space := file.elim session.space fun path => appendLine session.space path (record.json? session.time) } := by
  rw [emit, if_pos hwrites, hhandlers]
  cases file <;> rfl

theorem logFiles_of_handlers {format : Format} {file : Option Path}
    (hhandlers : session.logger.handlers = .terminal format :: file.toList.map .file) :
    session.logFiles = (file.map Path.parts).toList := by
  rw [logFiles, hhandlers]
  cases file <;> rfl

theorem emit_of_not_writes (h : ¬(0 < record.level ∧ session.logger.threshold ≤ record.level)) :
    session.emit record = session := by
  rw [emit, if_neg]
  rw [Logger.writes, Bool.and_eq_true, decide_eq_true_eq, decide_eq_true_eq]
  exact h

/-! ### The last configuring that counted -/

/-- A configuring that is the first one or a forced one, and no forced one after it. -/
structure LastEffective (before : List Step) (setup : Setup) (later : List Step) : Prop where
  effective : setup.force = true ∨ ∀ other, .configure other ∉ before
  last : ∀ step ∈ later, ¬step.IsForced

theorem exists_lastEffective {steps : List Step} (h : ∃ setup, .configure setup ∈ steps) :
    ∃ before setup later, steps = before ++ .configure setup :: later ∧ LastEffective before setup later := by
  -- By the last step: either it counts, or what counted before it still does.
  induction steps using List.reverseRecOn with
  | nil =>
    obtain ⟨_, h⟩ := h
    cases h
  | append_singleton steps step ih =>
    by_cases hearlier : ∃ setup, .configure setup ∈ steps
    · by_cases hforced : step.IsForced
      · cases step with
        | configure setup => exact ⟨steps, setup, [], rfl, .inl hforced, nofun⟩
        | setLevel => cases hforced
        | log => cases hforced
        | logPass => cases hforced
      · obtain ⟨before, setup, later, rfl, hlast⟩ := ih hearlier
        refine ⟨before, setup, later ++ [step], by simp, hlast.effective, fun other hother => ?_⟩
        rcases List.mem_append.1 hother with hother | hother
        · exact hlast.last other hother
        · rwa [List.mem_singleton.1 hother]
    · obtain ⟨setup, hmem⟩ := h
      rcases List.mem_append.1 hmem with hmem | hmem
      · exact absurd ⟨setup, hmem⟩ hearlier
      · rw [← List.mem_singleton.1 hmem]
        exact ⟨steps, setup, [], rfl, .inr (not_exists.1 hearlier), nofun⟩

/-- What stays of a configuring until the next one that counts: the handlers, with a file for each that needs one. -/
structure Kept (setup : Setup) (start : Session) (later : List Step) (session : Session) : Prop where
  logger : session.logger = { setup.logger start.space with
    level := ((later.filterMap Step.level?).getLast?).getD setup.chosenLevel }
  there : ∀ location ∈ session.logFiles, (session.space.tree.bytes? location).isSome

theorem kept_configure (hhere : ".." ∉ start.space.here) (h : setup.force = true ∨ start.logger.configured = false) :
    Kept setup start [] (start.perform (.configure setup)) := by
  obtain ⟨after, error, hconfigure, hopens⟩ := configureBy_of_effective h
  rw [perform, hconfigure]
  refine ⟨rfl, fun location hlocation => ?_⟩
  have hfiles : ({ start with
      environment := setup.environment, logger := setup.logger start.space, space := after } : Session).logFiles =
      ((setup.opened? start.space).map Path.parts).toList := logFiles_of_handlers rfl
  rw [hfiles, Option.mem_toList, Option.map_eq_some_iff] at hlocation
  obtain ⟨path, hopened, rfl⟩ := hlocation
  obtain ⟨name, -, -, rfl⟩ := Setup.file?_eq_some_iff.1 (Option.filter_eq_some_iff.1 hopened).1
  rw [← resolve_absoluteAt hhere (Path.ofText name) start.space]
  exact hopens.there _ hopened

theorem filterMap_level?_concat (later : List Step) (step : Step) :
    (later ++ [step]).filterMap Step.level? = later.filterMap Step.level? ++ step.level?.toList := by
  rw [List.filterMap_append, List.filterMap_cons, List.filterMap_nil]
  cases step.level? <;> rfl

namespace Kept

variable (h : Kept setup start later session)

include h

theorem configured : session.logger.configured = true := by rw [h.logger, Setup.logger]

theorem handlers : session.logger.handlers =
    .terminal setup.chosenFormat :: (setup.opened? start.space).toList.map .file := by rw [h.logger, Setup.logger]

theorem emit (hlevel : step.level? = none) (record : Record) :
    Kept setup start (later ++ [step]) (session.emit record) where
  logger := by
    rw [(logged_emit session record).logger, h.logger, filterMap_level?_concat, hlevel, Option.toList_none,
      List.append_nil]
  there location hlocation := by
    rw [(logged_emit session record).logFiles] at hlocation
    rw [(logged_emit session record).files.spares.noneNew]
    exact h.there location hlocation

theorem perform (hstep : ¬step.IsForced) : Kept setup start (later ++ [step]) (session.perform step) := by
  cases step with
  | configure other =>
    rw [Session.perform, configureBy_of_configured h.configured (Bool.not_eq_true _ ▸ hstep)]
    have hnone : (Step.configure other).level? = none := rfl
    refine ⟨?_, h.there⟩
    rw [filterMap_level?_concat, hnone, Option.toList_none, List.append_nil, ← h.logger]
  | setLevel level =>
    refine ⟨?_, h.there⟩
    rw [filterMap_level?_concat, Step.level?, Option.toList_some, List.getLast?_concat, Session.perform,
      Logger.setLevel, h.logger]
    rfl
  | log => exact h.emit rfl _
  | logPass => exact h.emit rfl _

end Kept

theorem kept_performAll (hhere : ".." ∉ start.space.here) (h : setup.force = true ∨ start.logger.configured = false)
    (hlater : ∀ step ∈ later, ¬step.IsForced) :
    Kept setup start later (start.performAll (.configure setup :: later)) := by
  -- `Kept` is the invariant; every later step keeps it because it is not forced.
  induction later using List.reverseRecOn with
  | nil => exact kept_configure hhere h
  | append_singleton later step ih =>
    rw [← List.cons_append, performAll_concat]
    exact (ih fun other hother => hlater other (List.mem_append_left _ hother)).perform
      (hlater step (List.mem_append_right _ List.mem_cons_self))

structure Wrote (format : Format) (record : Record) (before after : Session) : Prop where
  printed : format.canWrite record = true → ∃ line, format.apply before.time record = some line ∧
    after.printed = before.printed ++ [line]
  unprinted : format.canWrite record = false → after.printed = before.printed
  filed : Format.json.canWrite record = true → ∀ location ∈ before.logFiles, ∃ bytes,
    before.space.tree.bytes? location = some bytes ∧
      after.space.tree.bytes? location = some (bytes ++ (record.json before.time ++ "\n").toUTF8)
  unfiled : Format.json.canWrite record = false → ∀ location,
    after.space.tree.bytes? location = before.space.tree.bytes? location
  elsewhere : ∀ location ∉ before.logFiles, after.space.tree.bytes? location = before.space.tree.bytes? location

theorem Kept.bytes?_emit (h : Kept setup start later session) (hwrites : session.logger.writes record = true)
    {location : Location} (hlocation : location ∈ session.logFiles) : ∃ bytes,
      session.space.tree.bytes? location = some bytes ∧ (session.emit record).space.tree.bytes? location =
        some (bytes ++ ((record.json? session.time).elim "" (· ++ "\n")).toUTF8) := by
  obtain ⟨bytes, hbytes⟩ := Option.isSome_iff_exists.1 (h.there location hlocation)
  rw [logFiles_of_handlers h.handlers, Option.mem_toList, Option.map_eq_some_iff] at hlocation
  obtain ⟨path, hopened, rfl⟩ := hlocation
  refine ⟨bytes, hbytes, ?_⟩
  rw [emit_of_handlers h.handlers hwrites, hopened, Option.elim_some, bytes?_appendLine, if_pos rfl, hbytes,
    Option.map_some]

theorem Kept.wrote (h : Kept setup start later session) (hrecord : step.record? = some record)
    (hpositive : 0 < record.level) (hlevel : session.logger.threshold ≤ record.level) :
    Wrote setup.chosenFormat record session (session.perform step) := by
  have hwrites : session.logger.writes record = true := by
    rw [Logger.writes, decide_eq_true hpositive, decide_eq_true hlevel]
    rfl
  have hprinted : (session.emit record).printed =
      session.printed ++ (setup.chosenFormat.apply session.time record).toList := by
    rw [emit_of_handlers h.handlers hwrites]
  have hformat := setup.chosenFormat.isSome_apply session.time record
  have hjson := Format.json.isSome_apply session.time record
  have helsewhere := (logged_emit session record).files.spares.same
  rw [perform_of_record hrecord]
  -- A handler adds the text that its format gives; where there is none, what it adds is empty.
  refine ⟨fun hcan => ?_, fun hcannot => ?_, fun hcan location hlocation => ?_, fun hcannot location => ?_, helsewhere⟩
  · rw [hcan] at hformat
    obtain ⟨line, hline⟩ := Option.isSome_iff_exists.1 hformat
    exact ⟨line, hline, by rw [hprinted, hline, Option.toList_some]⟩
  · rw [hcannot, Option.isSome_eq_false_iff, Option.isNone_iff_eq_none] at hformat
    rw [hprinted, hformat, Option.toList_none, List.append_nil]
  · obtain ⟨bytes, hbytes, hadded⟩ := h.bytes?_emit hwrites hlocation
    rw [hcan] at hjson
    obtain ⟨line, hline⟩ := Option.isSome_iff_exists.1 hjson
    have hline : record.json? session.time = some line := hline
    rw [hline, Option.elim_some] at hadded
    exact ⟨bytes, hbytes, by rw [hadded, Record.json, hline, Option.getD_some]⟩
  · by_cases hlocation : location ∈ session.logFiles
    · obtain ⟨bytes, hbytes, hadded⟩ := h.bytes?_emit hwrites hlocation
      rw [hcannot, Option.isSome_eq_false_iff, Option.isNone_iff_eq_none] at hjson
      have hnone : record.json? session.time = none := hjson
      have hempty : "".toUTF8 = ByteArray.empty := rfl
      rw [hnone, Option.elim_none, hempty, ByteArray.append_empty] at hadded
      rw [hadded, hbytes]
    · exact helsewhere location hlocation

/-- What the last configuring that counted has made of a session, and what any step from here does to it: a record
is written one time by each handler that can write it, as every handler can if the record is an ordinary one, a
configuring that does not count changes nothing, and no step but a record writes to a file. -/
structure InForce (setup : Setup) (start : Session) (later : List Step) (session : Session) : Prop where
  configured : session.logger.configured = true
  handlers : session.logger.handlers = .terminal setup.chosenFormat :: (setup.opened? start.space).toList.map .file
  file : ∀ path, setup.opened? start.space = some path ↔
    ∃ name, setup.environment.lookup Environment.file = some name ∧ name ≠ "" ∧
      path = (Path.ofText name).absoluteAt start.space.here ∧ ∃ after, openFile start.space (.file path) = .ok after
  failed : (start.configureBy setup).2.isSome ↔ (setup.file? start.space).isSome ∧ setup.opened? start.space = none
  level : session.logger.level = ((later.filterMap Step.level?).getLast?).getD setup.chosenLevel
  unforced : ∀ other, other.force = false →
    session.perform (.configure other) = { session with environment := other.environment }
  written : ∀ step record, step.record? = some record → 0 < record.level → session.logger.threshold ≤ record.level →
    Wrote setup.chosenFormat record session (session.perform step)
  ordinary : ∀ record : Record, record.IsOrdinary →
    setup.chosenFormat.canWrite record = true ∧ Format.json.canWrite record = true
  unwritten : ∀ step record, step.record? = some record →
    ¬(0 < record.level ∧ session.logger.threshold ≤ record.level) → session.perform step = session
  quiet : ∀ step, step.record? = none → (session.perform step).printed = session.printed ∧
    ∀ location bytes, session.space.tree.bytes? location = some bytes →
      (session.perform step).space.tree.bytes? location = some bytes

theorem Kept.inForce (h : Kept setup start later session)
    (heffective : setup.force = true ∨ start.logger.configured = false) : InForce setup start later session where
  configured := h.configured
  handlers := h.handlers
  file _ := Setup.opened?_eq_some_iff
  failed := by
    obtain ⟨after, error, hconfigure, hopens⟩ := configureBy_of_effective heffective
    rw [hconfigure]
    exact hopens.failed
  level := by rw [h.logger]
  unforced other hforce := by rw [Session.perform, configureBy_of_configured h.configured hforce]
  written _ _ hrecord hpositive hlevel := h.wrote hrecord hpositive hlevel
  ordinary _ hordinary := ⟨hordinary.canWrite _, hordinary.canWrite _⟩
  unwritten _ _ hrecord hlevel := by rw [perform_of_record hrecord, emit_of_not_writes hlevel]
  quiet step hstep := by
    cases step with
    | configure other => exact ⟨(perform_configure session other).1, (perform_configure session other).2.2⟩
    | setLevel level => exact ⟨rfl, fun _ _ hbytes => hbytes⟩
    | log => cases hstep
    | logPass => cases hstep

end Session

end UtilityCss
