import UtilityCss.CommandLine.Run
import UtilityCss.Proofs.StableScans

/-!
# How lines end

A line whose configuration can be logged and whose arguments can be read does what its request says. Reading
a configuration leaves nothing but records, and gives its entries, an explanation, or a crash.
-/

namespace UtilityCss.CommandLine

/-- A line ends with the code for success or for failure; a crash gives no code. -/
def Ends (line : List String) (events : List (Binary64 × Event)) (session : Session) : Prop :=
  ∃ code after, run line events session = .ok code after ∧ code ≤ 1

/-! ### Reading a line -/

section Lines

variable {flags : List Flag} {text : String}

theorem word?_plain (h : text.toList.head? ≠ some '-') : word? flags text = some (.plain text) := by
  unfold word?
  split
  · rename_i heq
    rw [heq] at h
    exact absurd rfl h
  · rfl

theorem ne_divider (h : text.toList.head? ≠ some '-') : text ≠ "--" := by
  rintro rfl
  exact h rfl

theorem words?_plain (h : text.toList.head? ≠ some '-') {rest : List String}
    {words : List (String × Word)} (hrest : words? flags rest = some words) :
    words? flags (text :: rest) = some ((text, .plain text) :: words) := by
  rw [words?]
  · rw [word?_plain h, hrest]
    rfl
  · exact ne_divider h

theorem words?_pair {name : String} (hname : name.toList.head? ≠ some '-')
    (h : text.toList.head? ≠ some '-') :
    words? flags [name, text] = some [(name, .plain name), (text, .plain text)] :=
  words?_plain hname (words?_plain h rfl)

theorem parse_validate : parse commands ["validate"] = .ok (.validate none) := rfl

theorem ask_plain (command : Command Request) (htakes : command.takesPlain = true)
    (h : text.toList.head? ≠ some '-') :
    command.ask false [text] = .ok (command.request { plain := some text, expecting := false }) := by
  have hwords : words? command.flags [text] = some [(text, .plain text)] := words?_plain h rfl
  simp only [Command.ask, Arguments.ofTexts, hwords, htakes, List.map_cons, List.map_nil,
    Arguments.ofWords, if_true]
  rfl

theorem parse_pair (name : String) {command : Command Request} (hname : name.toList.head? ≠ some '-')
    (hcommand : commands.find? (fun command => command.name = name) = some command)
    (htakes : command.takesPlain = true) (h : text.toList.head? ≠ some '-') :
    parse commands [name, text] = .ok (command.request { plain := some text, expecting := false }) := by
  simp only [parse, words?_pair hname h, ofLine, hcommand, List.map_cons, List.map_nil,
    ask_plain command htakes h]

theorem parse_scan (h : text.toList.head? ≠ some '-') :
    parse commands ["scan", text] = .ok (.scan { project := text }) :=
  parse_pair "scan" (by decide) rfl rfl h

theorem parse_generate (h : text.toList.head? ≠ some '-') :
    parse commands ["generate", text] = .ok (.generate { project := text } none false) :=
  parse_pair "generate" (by decide) rfl rfl h

end Lines

/-! ### Starting -/

variable {line : List String} {events : List (Binary64 × Event)} {session configured after : Session}
  {request : Request} {code : Nat} {crash : Crash}

theorem start_of_request (hconfigure : session.configure none none false = .ok configured)
    (hparse : parse commands line = .ok request) (hdetailed : request.detailed = false) :
    start line session = perform request configured := by
  have htask : Task.configure session = .ok () configured := by
    simp only [Task.configure, Task.bind_apply, Task.get_apply, hconfigure]
    rfl
  simp only [start, Task.bind_apply, Task.explain_apply, htask, hparse, hdetailed]
  rfl

theorem start_of_configure_error {error : FileError}
    (hconfigure : session.configure none none false = .error error) :
    start line session = .error (.file error) session := by
  have htask : Task.configure session = .error error session := by
    simp only [Task.configure, Task.bind_apply, Task.get_apply, hconfigure]
    rfl
  simp only [start, Task.bind_apply, Task.explain_apply, htask]

theorem run_of_done (h : start line session = .ok (.done code) after) :
    run line events session = .ok code after := by
  simp only [run, Task.bind_apply, h, Task.pure_apply]

theorem run_of_error (h : start line session = .error crash after) :
    run line events session = .error crash after := by
  simp only [run, Task.bind_apply, h]

theorem ends_of_done (h : start line session = .ok (.done code) after) (hcode : code ≤ 1) :
    Ends line events session := ⟨code, after, run_of_done h, hcode⟩

theorem not_ends_of_error (h : start line session = .error crash after) : ¬Ends line events session := by
  rintro ⟨code, after, hrun, -⟩
  rw [run_of_error h] at hrun
  cases hrun

/-! ### Reading a configuration -/

section Reading

variable {path : Path} {config : Entries} {fault : Config.Fault}

theorem logged_warnAll (messages : List String) (session : Session) :
    session.Logged (session.warnAll messages) := by
  induction messages generalizing session with
  | nil => exact .refl session
  | cons message rest ih => exact (Session.logged_emit session _).trans (ih _)

theorem load_apply (path : Path) (session : Session) :
    ∃ warned, session.Logged warned ∧ Config.load path session =
      match (Config.loadAt session.reader session.space path).result with
      | .ok config => .ok config warned
      | .error fault => .error fault warned := by
  refine ⟨session.warnAll (Config.loadAt session.reader session.space path).notes, logged_warnAll _ session, ?_⟩
  have hwarn (messages : List String) :
      (Task.warnAll messages : Task Config.Fault Unit) session = .ok () (session.warnAll messages) := rfl
  simp only [Config.load, Task.bind_apply, Task.ask_apply, hwarn]
  cases (Config.loadAt session.reader session.space path).result <;> rfl

theorem readConfig_of_ok (h : (Config.loadAt session.reader session.space path).result = .ok config) :
    ∃ warned, session.Logged warned ∧ readConfig path session = .ok (some config) warned := by
  obtain ⟨warned, hwarned, hload⟩ := load_apply path session
  rw [h] at hload
  exact ⟨warned, hwarned, by simp only [readConfig, Task.bind_apply, Task.attempt_apply, hload]; rfl⟩

theorem readConfig_of_error (h : (Config.loadAt session.reader session.space path).result = .error fault) :
    ∃ warned, session.Logged warned ∧ readConfig path session =
      if isExplained fault then .ok none (warned.say (configLine fault.message))
      else .error (.config fault) warned := by
  obtain ⟨warned, hwarned, hload⟩ := load_apply path session
  rw [h] at hload
  refine ⟨warned, hwarned, ?_⟩
  simp only [readConfig, Task.bind_apply, Task.attempt_apply, hload]
  split <;> rfl

theorem look_of_find? {space : Workspace} (h : Config.find? space = some path) :
    ∃ node, space.look path = .ok (some node) := by
  have hhas : space.has path = true := List.find?_some h
  rw [Workspace.has, Workspace.node?] at hhas
  split at hhas
  · rename_i node hlook
    obtain ⟨found, rfl⟩ := Option.isSome_iff_exists.1 hhas
    exact ⟨found, hlook⟩
  · cases hhas

end Reading

end UtilityCss.CommandLine
