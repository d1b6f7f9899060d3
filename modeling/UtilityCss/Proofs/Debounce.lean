import Mathlib.Order.Defs.LinearOrder
import Mathlib.Data.List.Chain
import Mathlib.Algebra.Order.Field.Rat
import Mathlib.Tactic.NormNum
import UtilityCss.Watch.Run
import UtilityCss.Proofs.LogFiles

/-!
# Passes of a watcher over time

A watcher lives through a row of steps: the clock moves, files are edited, the flag for a pass under way is
set or cleared, events come in and passes are asked for. The state keeps the passes that were started, so
that what a trigger does can be said in terms of the last one of them. No order of the clock is needed.
-/

namespace UtilityCss.Watching

inductive Step (Time : Type)
  | clock (now : Time)
  | edit (change : FileTree → FileTree)
  | flag (running : Bool)
  | event (event : Event)
  | trigger (force : Bool)

structure Start (Time : Type) where
  time : Time
  forced : Bool
  turn : Turn

structure State (Time : Type) where
  watcher : Watcher Time
  session : Session
  now : Time
  /-- The passes so far, the last one at the end. -/
  starts : List (Start Time) := []

/-- An event that matters is noted before it is a trigger. -/
def Step.noted {Time : Type} (session : Session) : Step Time → Session
  | .event change => session.note ("Change detected: " ++ change.source)
  | _ => session

theorem Step.logged_noted {Time : Type} (session : Session) (step : Step Time) :
    session.Logged (step.noted session) := by
  cases step with
  | event change => exact Session.logged_emit session _
  | _ => exact .refl session

namespace State

variable {Time : Type}

def begun (state : State Time) (force : Bool) (turn : Turn) : List (Start Time) :=
  if turn.started then [{ time := state.now, forced := force, turn }] else []

def turned (state : State Time) (force : Bool) :
    EStateM.Result Failure Session (Watcher Time × Turn) → State Time
  | .ok (watcher, turn) session =>
    { state with watcher, session, starts := state.starts ++ state.begun force turn }
  | .error _ session => { state with session }

variable [Sub Time] [LT Time] [DecidableLT Time]

def step (state : State Time) : Step Time → State Time
  | .clock now => { state with now }
  | .edit change =>
    let space := state.session.space
    { state with session := { state.session with space := { space with tree := change space.tree } } }
  | .flag running => { state with watcher := { state.watcher with running } }
  | .event event => state.turned false (state.watcher.attend event state.now state.session)
  | .trigger force => state.turned force (state.watcher.attempt force state.now state.session)

def run (state : State Time) (steps : List (Step Time)) : State Time := steps.foldl step state

def passed (state : State Time) (forced : Bool) (report : Option Report) (turn : Turn) (session : Session) :
    State Time where
  watcher := { state.watcher with running := false, lastStart := some state.now, lastReport := report }
  session := session
  now := state.now
  starts := state.starts ++ [{ time := state.now, forced, turn }]

end State

/-- A pass is asked for, or a file that the watcher handles changes. -/
inductive Triggers {Time : Type} (state : State Time) : Step Time → Bool → Prop
  | asked (force : Bool) : Triggers state (.trigger force) force
  | event {event : Event} (h : state.watcher.reactsTo state.session.space event = .ok true) :
    Triggers state (.event event) false

section Turns

variable {Time : Type} [Sub Time] [LT Time] [DecidableLT Time]

theorem attempt_of_not_mayStart {watcher : Watcher Time} {force : Bool} {now : Time}
    (h : watcher.mayStart force now = false) (session : Session) :
    (watcher.attempt force now : Task Failure _) session = .ok (watcher, .discarded) session := by
  simp [Watcher.attempt, h]

theorem attempt_begun (watcher : Watcher Time) (start : Time) (force : Bool) (now : Time) (session : Session) :
    ((watcher.begun start).attempt force now : Task Failure _) session =
      .ok (watcher.begun start, .discarded) session :=
  attempt_of_not_mayStart rfl session

theorem attempt_of_mayStart {watcher : Watcher Time} {force : Bool} {now : Time}
    (h : watcher.mayStart force now = true) (session : Session) :
    (watcher.attempt force now : Task Failure _) session =
      match Pass.generate (Path.ofLocation watcher.root) (Path.ofLocation watcher.output) watcher.options session with
      | .ok report after =>
        .ok ({ (watcher.begun now).ended with lastReport := some report }, .reported report)
          (after.sayAll report.lines)
      | .error failure after => .ok ((watcher.begun now).ended, .broken failure) after := by
  have hpass : (watcher.attempt force now : Task Failure _) session = (watcher.begun now).pass session := by
    simp [Watcher.attempt, h]
  rw [hpass, Watcher.pass_apply]
  rfl

theorem attend_of_reactsTo {watcher : Watcher Time} {event : Event} {session : Session}
    (h : watcher.reactsTo session.space event = .ok true) (now : Time) :
    watcher.attend event now session =
      watcher.attempt false now (session.note ("Change detected: " ++ event.source)) := by
  simp [Watcher.attend, h]

variable {state : State Time} {step : Step Time} {force : Bool}

theorem Triggers.step_eq (h : Triggers state step force) :
    state.step step =
      state.turned force (state.watcher.attempt force state.now (step.noted state.session)) := by
  cases h with
  | asked => rfl
  | event h => rw [State.step, attend_of_reactsTo h, Step.noted]

theorem Triggers.discarded (h : Triggers state step force)
    (hstart : state.watcher.mayStart force state.now = false) :
    state.step step = { state with session := step.noted state.session } := by
  rw [h.step_eq, attempt_of_not_mayStart hstart]
  simp [State.turned, State.begun, Turn.started]

theorem Triggers.passed (h : Triggers state step force)
    (hstart : state.watcher.mayStart force state.now = true) :
    match Pass.generate (Path.ofLocation state.watcher.root) (Path.ofLocation state.watcher.output)
      state.watcher.options (step.noted state.session) with
    | .ok report after =>
      state.step step = state.passed force (some report) (.reported report) (after.sayAll report.lines)
    | .error failure after =>
      state.step step = state.passed force state.watcher.lastReport (.broken failure) after := by
  rw [h.step_eq, attempt_of_mayStart hstart]
  cases Pass.generate (Path.ofLocation state.watcher.root) (Path.ofLocation state.watcher.output)
      state.watcher.options (step.noted state.session) with
  | ok report after => rfl
  | error failure after => rfl

theorem Triggers.exists_passed (h : Triggers state step force)
    (hstart : state.watcher.mayStart force state.now = true) :
    ∃ report turn after, state.step step = state.passed force report turn after := by
  have hpassed := h.passed hstart
  split at hpassed
  · exact ⟨_, _, _, hpassed⟩
  · exact ⟨_, _, _, hpassed⟩

theorem exists_attend_of_not_reactsTo {watcher : Watcher Time} {event : Event} {session : Session}
    (h : watcher.reactsTo session.space event ≠ .ok true) (now : Time) :
    watcher.attend event now session = .ok (watcher, .discarded) session ∨
      ∃ failure, watcher.attend event now session = .error failure session := by
  simp only [Watcher.attend, Task.bind_apply, Task.look_apply]
  cases hreacts : watcher.reactsTo session.space event with
  | error failure => exact .inr ⟨failure, rfl⟩
  | ok reacts =>
    cases reacts with
    | true => exact absurd hreacts h
    | false => exact .inl rfl

theorem step_of_not_triggers (h : ∀ force, ¬Triggers state step force) :
    (state.step step).starts = state.starts ∧
      ∃ running, (state.step step).watcher = { state.watcher with running } := by
  cases step with
  | clock | edit => exact ⟨rfl, state.watcher.running, rfl⟩
  | flag running => exact ⟨rfl, running, rfl⟩
  | trigger force => exact absurd (.asked force) (h force)
  | event event =>
    have hreacts : state.watcher.reactsTo state.session.space event ≠ .ok true :=
      fun hreacts => h false (.event hreacts)
    refine ⟨?_, state.watcher.running, ?_⟩ <;>
      rcases exists_attend_of_not_reactsTo hreacts state.now with hattend | ⟨failure, hattend⟩ <;>
        simp [State.step, hattend, State.turned, State.begun, Turn.started]

end Turns

section Runs

variable {Time : Type} [Sub Time] [LinearOrder Time]

/-- An unforced pass does not start before the debounce since the pass before is over. -/
def Spaced (debounce : Time) (earlier later : Start Time) : Prop :=
  later.forced = false → debounce ≤ later.time - earlier.time

/-- A watcher goes on as it was made, and remembers of the last pass when it started. -/
structure Recorded (made : Watcher Time) (state : State Time) : Prop where
  watcher_eq : ∃ running lastReport, state.watcher =
    { made with running, lastReport, lastStart := state.starts.getLast?.map Start.time }
  spaced : state.starts.IsChain (Spaced made.debounce)

variable {made : Watcher Time} {state : State Time}

theorem Recorded.mayStart_iff (h : Recorded made state) (force : Bool) :
    state.watcher.mayStart force state.now = true ↔
      state.watcher.running = false ∧ (force = true ∨
        ∀ last, state.starts.getLast? = some last → made.debounce ≤ state.now - last.time) := by
  obtain ⟨running, lastReport, hwatcher⟩ := h.watcher_eq
  rw [Watcher.mayStart, Watcher.isDue, hwatcher]
  cases state.starts.getLast? <;> simp

theorem Recorded.step (h : Recorded made state) (step : Step Time) : Recorded made (state.step step) := by
  obtain ⟨running, lastReport, hwatcher⟩ := h.watcher_eq
  -- Only a trigger that may start a pass adds to the starts, and then it is due by what the watcher remembers.
  by_cases htriggers : ∃ force, Triggers state step force
  · obtain ⟨force, htrigger⟩ := htriggers
    cases hstart : state.watcher.mayStart force state.now with
    | false =>
      rw [htrigger.discarded hstart]
      exact ⟨h.watcher_eq, h.spaced⟩
    | true =>
      obtain ⟨report, turn, after, hstep⟩ := htrigger.exists_passed hstart
      obtain ⟨-, hdue⟩ := (h.mayStart_iff force).1 hstart
      rw [hstep]
      refine ⟨⟨false, report, ?_⟩, ?_⟩
      · simp [State.passed, hwatcher]
      · refine List.isChain_append.2 ⟨h.spaced, .singleton _, fun last hlast next hnext hforced => ?_⟩
        obtain rfl : _ = next := by simpa using hnext
        exact (hdue.resolve_left (by simpa using hforced)) last hlast
  · obtain ⟨hstarts, running, hsame⟩ :=
      step_of_not_triggers fun force htrigger => htriggers ⟨force, htrigger⟩
    refine ⟨⟨running, lastReport, ?_⟩, hstarts ▸ h.spaced⟩
    rw [hsame, hwatcher, hstarts]

theorem Recorded.run (h : Recorded made state) (steps : List (Step Time)) :
    Recorded made (state.run steps) := by
  induction steps generalizing state with
  | nil => exact h
  | cons step steps ih => exact ih (h.step step)

/-- Whatever a new watcher has lived through, its unforced passes are spaced, and only triggers start passes.
A trigger starts one exactly when none is under way and, unless it is forced, the debounce since the last start
is over. The pass generates the style sheet in the session where the trigger is noted; until it is over every
trigger is discarded, and then what came of it is in the state. A trigger that is discarded changes nothing: all
that is left of the step is the note about its event, which was made before the trigger and may go to a log
file. -/
theorem triggers_debounced (root output : Location) (options : Options) (debounce : Time)
    (session : Session) (now : Time) (steps : List (Step Time)) :
    let state := State.run { watcher := { root, output, options, debounce }, session, now } steps
    state.starts.IsChain (Spaced debounce) ∧
    (∀ step, (∀ force, ¬Triggers state step force) → (state.step step).starts = state.starts) ∧
    ∀ step force, Triggers state step force →
      let next := state.step step
      let due := state.watcher.running = false ∧ (force = true ∨
        ∀ last, state.starts.getLast? = some last → debounce ≤ state.now - last.time)
      (due →
        (match Pass.generate (Path.ofLocation root) (Path.ofLocation output) options
            (step.noted state.session) with
          | .ok report after =>
            next = state.passed force (some report) (.reported report) (after.sayAll report.lines)
          | .error failure after => next = state.passed force state.watcher.lastReport (.broken failure) after) ∧
        next.watcher.running = false ∧
        ∀ other later during, ((state.watcher.begun state.now).attempt other later : Task Failure _) during =
          .ok (state.watcher.begun state.now, .discarded) during) ∧
      (¬due → next = { state with session := step.noted state.session } ∧
        state.session.space.tree.Spares state.session.logFiles next.session.space.tree) := by
  intro state
  have hrecorded : Recorded { root, output, options, debounce } state :=
    Recorded.run ⟨⟨false, none, rfl⟩, .nil⟩ steps
  obtain ⟨running, lastReport, hwatcher⟩ := hrecorded.watcher_eq
  refine ⟨hrecorded.spaced, fun step h => (step_of_not_triggers h).1, fun step force htrigger => ?_⟩
  intro next due
  have hdue : state.watcher.mayStart force state.now = true ↔ due := hrecorded.mayStart_iff force
  constructor
  · intro h
    have hpassed := htrigger.passed (hdue.2 h)
    obtain ⟨report, turn, after, hnext⟩ := htrigger.exists_passed (hdue.2 h)
    refine ⟨?_, congrArg (fun state => state.watcher.running) hnext, attempt_begun state.watcher state.now⟩
    rw [hwatcher] at hpassed
    rwa [hwatcher]
  · intro h
    have hstart : state.watcher.mayStart force state.now = false :=
      Bool.eq_false_iff.2 fun hstart => h (hdue.1 hstart)
    have hstep : next = { state with session := step.noted state.session } :=
      htrigger.discarded hstart
    refine ⟨hstep, ?_⟩
    rw [hstep]
    exact (Step.logged_noted state.session step).files.spares

theorem triggers_debounced_early :
    let state := State.run
      ({ watcher := { root := ["p"], output := ["out.css"], debounce := 1 / 2 }, session := {}, now := 0 } :
        State ℚ)
      [.trigger true, .clock (1 / 4)]
    Triggers state (.trigger false) false ∧ state.starts.map Start.time = [0] ∧
      state.step (.trigger false) = state := by
  intro state
  have htrigger : Triggers state (.trigger false) false := .asked false
  have hstarts : state.starts.map Start.time = [0] := by decide +kernel
  refine ⟨htrigger, hstarts, ?_⟩
  obtain ⟨-, -, htriggers⟩ := triggers_debounced ["p"] ["out.css"] {} (1 / 2 : ℚ) {} 0
    [.trigger true, .clock (1 / 4)]
  obtain ⟨-, hdiscarded⟩ := htriggers (.trigger false) false htrigger
  refine (hdiscarded ?_).1
  rintro ⟨-, hforce | hdue⟩
  · cases hforce
  · cases hlast : state.starts.getLast? with
    | none =>
      rw [List.getLast?_eq_none_iff.1 hlast] at hstarts
      cases hstarts
    | some last =>
      have htime : last.time = 0 := by
        have hmem := List.mem_map_of_mem (f := Start.time) (List.mem_of_getLast? hlast)
        rw [hstarts] at hmem
        exact List.mem_singleton.1 hmem
      have hnow : state.now = 1 / 4 := rfl
      have hle := hdue last hlast
      rw [htime, hnow] at hle
      norm_num at hle

/-- An event that comes in during a pass is discarded, and noted in the log file all the same. -/
theorem discarded_event_changes_log_file :
    let logging : Session := {
      space := { tree := { nodes := [(["log.jsonl"], .file ByteArray.empty), (["p"], .folder)] } }
      logger := { level := Log.debug, handlers := [.file (Path.ofText "/log.jsonl")], configured := true } }
    let state := State.run
      ({ watcher := { root := ["p"], output := ["out.css"], debounce := 1 / 2 }, session := logging, now := 0 } :
        State ℚ)
      [.flag true]
    let event : Event := { change := some .modified, source := "p/a.html" }
    Triggers state (.event event) false ∧ (state.step (.event event)).starts = [] ∧
      (state.step (.event event)).session.space.tree.bytes? ["log.jsonl"] ≠
        state.session.space.tree.bytes? ["log.jsonl"] := by
  intro logging state event
  exact ⟨.event (by decide +kernel), by decide +kernel, by decide +kernel⟩

end Runs

end UtilityCss.Watching
