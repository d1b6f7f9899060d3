import UtilityCss.Colour
import UtilityCss.Watch.Watcher

/-!
# Runs of a watcher

A run begins with a forced pass, ends when it is interrupted, and says on the terminal what each pass did.
-/

namespace UtilityCss

namespace Outcome

def failureLine (reason : Option String) : String :=
  Colour.red.paint ("✗ Generation failed: " ++ reason.getD Scalar.null.shown)

def unknownLine (count : Nat) : String :=
  "  " ++ Colour.yellow.paint s!"{count} unknown class(es)"

def successLines (output : String) (generated total size unknown : Nat) : List String :=
  (Colour.green.paint "✓" ++ s!" {output} ({generated}/{total} classes, {size} bytes)") ::
    if unknown = 0 then [] else [unknownLine unknown]

end Outcome

def Report.lines (report : Report) : List String :=
  match report.outcome with
  | .failed reason => [Outcome.failureLine (some reason)]
  | .written classes size =>
    Outcome.successLines report.output.text classes.recognized.length classes.total size
      classes.unknown.length

inductive Turn
  | discarded
  | reported (report : Report)
  /-- The pass ended without a report. -/
  | broken (failure : Failure)
  deriving DecidableEq, Repr

namespace Turn

def started : Turn → Bool
  | discarded => false
  | reported _ | broken _ => true

def report : Turn → Task Failure (Option Report)
  | discarded => return none
  | reported report => return some report
  | broken failure => throw failure

end Turn

namespace Watcher

variable {Time : Type}

def begun (watcher : Watcher Time) (now : Time) : Watcher Time :=
  { watcher with running := true, lastStart := some now }

def ended (watcher : Watcher Time) : Watcher Time := { watcher with running := false }

/-- The pass of a watcher. One that fails without a report is over like any other. -/
def pass {ε : Type} (watcher : Watcher Time) : Task ε (Watcher Time × Turn) := do
  match ← Task.attempt (Pass.generate (Path.ofLocation watcher.root)
    (Path.ofLocation watcher.output) watcher.options) with
  | .ok report =>
    Task.sayAll report.lines
    return ({ watcher.ended with lastReport := some report }, .reported report)
  | .error failure => return (watcher.ended, .broken failure)

theorem pass_apply {ε : Type} (watcher : Watcher Time) (session : Session) :
    (watcher.pass : Task ε (Watcher Time × Turn)) session =
      match Pass.generate (Path.ofLocation watcher.root) (Path.ofLocation watcher.output) watcher.options session with
      | .ok report after =>
        .ok ({ watcher.ended with lastReport := some report }, .reported report) (after.sayAll report.lines)
      | .error failure after => .ok (watcher.ended, .broken failure) after := by
  simp only [pass, Task.bind_apply, Task.attempt_apply]
  cases Pass.generate (Path.ofLocation watcher.root) (Path.ofLocation watcher.output) watcher.options session <;> rfl

variable [Sub Time] [LT Time] [DecidableLT Time]

def attempt {ε : Type} (watcher : Watcher Time) (force : Bool) (now : Time) :
    Task ε (Watcher Time × Turn) := do
  if watcher.mayStart force now then (watcher.begun now).pass
  else return (watcher, .discarded)

def attend (watcher : Watcher Time) (event : Event) (now : Time) :
    Task Failure (Watcher Time × Turn) := do
  if ← Task.look fun space => watcher.reactsTo space event then
    Task.note ("Change detected: " ++ event.source)
    watcher.attempt false now
  else
    return (watcher, .discarded)

def trigger (watcher : Watcher Time) (force : Bool) (now : Time) :
    Task Failure (Watcher Time × Option Report) := do
  let (watcher, turn) ← watcher.attempt force now
  return (watcher, ← turn.report)

def react (watcher : Watcher Time) (event : Event) (now : Time) :
    Task Failure (Watcher Time × Option Report) := do
  let (watcher, turn) ← watcher.attend event now
  return (watcher, ← turn.report)

def reactAll (watcher : Watcher Time) : List (Time × Event) → Task Failure (Watcher Time)
  | [] => return watcher
  | (now, event) :: events => do
    let (watcher, _) ← watcher.react event now
    watcher.reactAll events

end Watcher

/-! ### Watching until interrupted -/

namespace Watch

variable {Time : Type} [Sub Time] [LT Time] [DecidableLT Time]

/-- The first pass; no watcher when it fails. -/
def start (root output : Path) (options : Options) (debounce now : Time) :
    Task Failure (Option (Watcher Time)) := do
  let watcher ← Task.look fun space =>
    (Watcher.ofPaths space root output options debounce).mapError Failure.file
  Task.sayAll [
    "Watching " ++ (Path.ofLocation watcher.root).text ++ " for changes...",
    "Press Ctrl+C to stop"]
  let (watcher, report) ← watcher.trigger true now
  return if report.all Report.succeeded then some watcher else none

def stop : Task Failure Unit :=
  Task.sayAll [Colour.yellow.paint "Stopping watch mode...", Colour.green.paint "Watch mode stopped"]

def run (root output : Path) (options : Options) (debounce now : Time)
    (events : List (Time × Event)) : Task Failure Bool := do
  match ← start root output options debounce now with
  | none => return false
  | some watcher =>
    let _ ← watcher.reactAll events
    stop
    return true

end Watch

end UtilityCss
