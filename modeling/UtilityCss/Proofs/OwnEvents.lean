import UtilityCss.Proofs.Debounce
import UtilityCss.Proofs.Regeneration

/-!
# The events of a watcher's own passes

What a pass changes is its output, the folders that lead there and the log files. An observer tells the watcher
of all of this, under whatever names it knows the files by. The watcher ignores folders and its output, so a
pass does not lead to the next one, except through a log file that the watcher handles like any other file.
-/

namespace UtilityCss

namespace Path

theorem notMem_foldl_follow {names : List String} {here : Location} (h : ".." ∉ here) :
    ".." ∉ names.foldl follow here := by
  induction names generalizing here with
  | nil => exact h
  | cons name names ih =>
    refine ih ?_
    rw [follow]
    split
    · exact fun hmem => h ((List.dropLast_sublist here).subset hmem)
    · rename_i hname
      rw [List.mem_append, List.mem_singleton, not_or]
      exact ⟨h, Ne.symm hname⟩

end Path

namespace Watching

variable {Time : Type}

/-- An event about something that is different after a pass: a file that is no log file, or a new folder. The
source of the event may be spelled in any way that leads there. -/
inductive Tells (before after : Session) : Event → Prop
  | file {source : String} {change : Change} {location : Location}
      (hchange : change = .created ∨ change = .modified)
      (hsource : after.space.settle (Path.ofText source) = .ok location)
      (hbytes : after.space.tree.bytes? location ≠ before.space.tree.bytes? location)
      (hlog : location ∉ before.logFiles) :
      Tells before after { change := some change, source }
  | folder {source : String} {change : Change} {location : Location}
      (hchange : change = .created ∨ change = .modified)
      (hsource : after.space.settle (Path.ofText source) = .ok location)
      (hnew : before.space.tree.node? location = none)
      (hfolder : after.space.tree.node? location = some .folder) :
      Tells before after { change := some change, source, onFolder := true }

section Ignoring

variable {watcher : Watcher Time} {before after : Session} {event : Event}

theorem resolve_ofLocation {location : Location} (h : ".." ∉ location) (space : Workspace) :
    space.resolve (Path.ofLocation location) = location :=
  (Path.foldl_follow h []).trans (List.nil_append location)

theorem reactsTo_of_tells (hgrown : before.Grown [watcher.output] after) (h : Tells before after event) :
    watcher.reactsTo after.space event = .ok false := by
  cases h with
  | folder => rfl
  | @file source change location hchange hsource hbytes hlog =>
    have houtput : location = watcher.output := by
      by_contra hother
      refine hbytes (hgrown.files.bytes? ?_)
      rw [List.mem_append, List.mem_singleton, not_or]
      exact ⟨hother, hlog⟩
    have hhandles : watcher.handlesPath after.space source = .ok false := by
      simp only [Watcher.handlesPath, hsource, Watcher.handles, houtput, if_true]
      rfl
    have hpaths : Event.paths { change := some change, source } = [source] := rfl
    simp only [Watcher.reactsTo, Event.matters, Option.isSome_some, Bool.not_false, Bool.true_and,
      if_true, hpaths, Watcher.handlesOne, hhandles]
    rfl

end Ignoring

section Steps

variable [Sub Time] [LT Time] [DecidableLT Time] {watcher next : Watcher Time} {session after : Session}
  {turn : Turn} {force : Bool} {now : Time}

theorem grown_of_attempt (hup : ".." ∉ watcher.output)
    (h : (watcher.attempt force now : Task Failure _) session = .ok (next, turn) after) :
    next.output = watcher.output ∧ session.Grown [watcher.output] after := by
  cases hstart : watcher.mayStart force now with
  | false =>
    rw [attempt_of_not_mayStart hstart] at h
    obtain ⟨hnext, rfl⟩ := EStateM.Result.ok.inj h
    obtain ⟨rfl, -⟩ := Prod.mk.inj hnext
    exact ⟨rfl, (Session.Logged.refl session).grown _⟩
  | true =>
    rw [attempt_of_mayStart hstart] at h
    cases hgenerate : Pass.generate (Path.ofLocation watcher.root) (Path.ofLocation watcher.output)
        watcher.options session with
    | ok report written =>
      rw [hgenerate] at h
      obtain ⟨hnext, rfl⟩ := EStateM.Result.ok.inj h
      obtain ⟨rfl, -⟩ := Prod.mk.inj hnext
      have hgrown := Pass.grown_of_generate hgenerate
      rw [resolve_ofLocation hup] at hgrown
      exact ⟨rfl, hgrown.trans ((Session.logged_sayAll _ written).grown _)⟩
    | error failure written =>
      rw [hgenerate] at h
      obtain ⟨hnext, rfl⟩ := EStateM.Result.ok.inj h
      obtain ⟨rfl, -⟩ := Prod.mk.inj hnext
      have hgrown := Pass.grown_of_generate hgenerate
      rw [resolve_ofLocation hup] at hgrown
      exact ⟨rfl, hgrown⟩

theorem exists_attempt (watcher : Watcher Time) (force : Bool) (now : Time) (session : Session) :
    ∃ next turn after,
      (watcher.attempt force now : Task Failure _) session = .ok (next, turn) after := by
  cases hstart : watcher.mayStart force now with
  | false => exact ⟨_, _, _, attempt_of_not_mayStart hstart session⟩
  | true =>
    rw [attempt_of_mayStart hstart]
    split
    · exact ⟨_, _, _, rfl⟩
    · exact ⟨_, _, _, rfl⟩

variable {state : State Time}

theorem Triggers.grown {step : Step Time} (h : Triggers state step force) (hup : ".." ∉ state.watcher.output) :
    (state.step step).watcher.output = state.watcher.output ∧
      state.session.Grown [state.watcher.output] (state.step step).session := by
  obtain ⟨next, turn, after, hattempt⟩ :=
    exists_attempt state.watcher force state.now (step.noted state.session)
  obtain ⟨houtput, hgrown⟩ := grown_of_attempt hup hattempt
  rw [h.step_eq, hattempt]
  exact ⟨houtput, ((Step.logged_noted state.session step).grown _).trans hgrown⟩

/-- Whatever happens to a watcher, its output stays where it was settled, without double dots. -/
structure Settled (output : Location) (here : Location) (state : State Time) : Prop where
  output_eq : state.watcher.output = output
  here_eq : state.session.space.here = here
  up : ".." ∉ output

variable {output here : Location}

theorem Settled.step (h : Settled output here state) (step : Step Time) :
    Settled output here (state.step step) := by
  by_cases htriggers : ∃ force, Triggers state step force
  · obtain ⟨force, htrigger⟩ := htriggers
    obtain ⟨houtput, hgrown⟩ := htrigger.grown (h.output_eq ▸ h.up)
    exact ⟨houtput.trans h.output_eq, hgrown.files.here.trans h.here_eq, h.up⟩
  · cases step with
    | clock | edit | flag => exact ⟨h.output_eq, h.here_eq, h.up⟩
    | trigger force => exact absurd ⟨force, .asked force⟩ htriggers
    | event event =>
      have hreacts : state.watcher.reactsTo state.session.space event ≠ .ok true :=
        fun hreacts => htriggers ⟨false, .event hreacts⟩
      have hsame : (state.step (.event event)).watcher = state.watcher ∧
          (state.step (.event event)).session = state.session := by
        rcases exists_attend_of_not_reactsTo hreacts state.now with hattend | ⟨failure, hattend⟩ <;>
          simp [State.step, hattend, State.turned]
      exact ⟨by rw [hsame.1, h.output_eq], by rw [hsame.2, h.here_eq], h.up⟩

theorem Settled.run (h : Settled output here state) (steps : List (Step Time)) :
    Settled output here (state.run steps) := by
  induction steps generalizing state with
  | nil => exact h
  | cons step steps ih => exact ih (h.step step)

/-- What may happen after a pass: time goes by, and the watcher is told of what the pass changed. -/
inductive Follows (before after : Session) : Step Time → Prop
  | clock (now : Time) : Follows before after (.clock now)
  | told {event : Event} (h : Tells before after event) : Follows before after (.event event)

theorem attend_of_not_reactsTo {event : Event} (h : watcher.reactsTo session.space event = .ok false)
    (now : Time) : watcher.attend event now session = .ok (watcher, .discarded) session := by
  simp [Watcher.attend, h]

theorem step_of_tells {before : Session} {event : Event}
    (hgrown : before.Grown [state.watcher.output] state.session)
    (h : Tells before state.session event) : state.step (.event event) = state := by
  rw [State.step, attend_of_not_reactsTo (reactsTo_of_tells hgrown h)]
  simp [State.turned, State.begun, Turn.started]

theorem run_of_follows {before : Session} (hgrown : before.Grown [state.watcher.output] state.session)
    {steps : List (Step Time)} (hsteps : ∀ step ∈ steps, Follows before state.session step) :
    state.run steps = { state with now := (state.run steps).now } := by
  induction steps generalizing state with
  | nil => rfl
  | cons step steps ih =>
    obtain ⟨hstep, hrest⟩ := List.forall_mem_cons.1 hsteps
    rw [State.run, List.foldl_cons, ← State.run]
    cases hstep with
    | clock now => exact ih hgrown hrest
    | told htells =>
      rw [step_of_tells hgrown htells]
      exact ih hgrown hrest

end Steps

theorem settled_of_ofPaths {session : Session} {root output : Path} {options : Options}
    {debounce : Time} {watcher : Watcher Time}
    (h : Watcher.ofPaths session.space root output options debounce = .ok watcher)
    (hhere : ".." ∉ session.space.here) (now : Time) :
    Settled watcher.output session.space.here { watcher, session, now } := by
  obtain ⟨_, -, h⟩ := bind_eq_ok.1 h
  obtain ⟨location, hlocation, h⟩ := bind_eq_ok.1 h
  obtain rfl := Except.ok.inj h
  refine ⟨rfl, rfl, ?_⟩
  have hstart : ".." ∉ session.space.start output := by
    rw [Workspace.start]
    split
    · exact List.not_mem_nil
    · exact hhere
  rw [Workspace.settle_eq_ok hlocation]
  exact Path.notMem_foldl_follow hstart

/-- A pass does not lead to the next one. However long a watcher has lived, after a trigger it may be told
about every file that the trigger changed, log files apart, and about every new folder, at any time and in any
order: no pass is started, and nothing changes but the time. -/
theorem own_events_ignored [Sub Time] [LT Time] [DecidableLT Time] {session : Session}
    {root output : Path} {options : Options} {debounce now : Time} {watcher : Watcher Time}
    (hwatcher : Watcher.ofPaths session.space root output options debounce = .ok watcher)
    (hhere : ".." ∉ session.space.here) (earlier : List (Step Time)) :
    let state := State.run { watcher, session, now } earlier
    ∀ trigger force, Triggers state trigger force →
      let next := state.step trigger
      ∀ later, (∀ step ∈ later, Follows state.session next.session step) →
        (next.run later).starts = next.starts ∧ (next.run later).watcher = next.watcher ∧
          (next.run later).session = next.session := by
  intro state trigger force htrigger next later hlater
  have hsettled : Settled watcher.output session.space.here state :=
    (settled_of_ofPaths hwatcher hhere now).run earlier
  have hup : ".." ∉ state.watcher.output := hsettled.output_eq ▸ hsettled.up
  obtain ⟨houtput, hgrown⟩ := htrigger.grown hup
  have hnext : state.session.Grown [next.watcher.output] next.session := houtput ▸ hgrown
  have hrun := run_of_follows hnext hlater
  generalize (next.run later).now = time at hrun
  rw [hrun]
  exact ⟨rfl, rfl, rfl⟩

theorem own_events_ignored_page :
    let session : Session := { space := { tree := { nodes := [
      (["p"], .folder),
      (["p", "page.html"], .file "<p class=\"vibe-flex\">".toUTF8)] } } }
    ∃ watcher, Watcher.ofPaths session.space (Path.ofText "p") (Path.ofText "p/out/site.html")
        { includeBase := false } (0 : Nat) = .ok watcher ∧
      let state : State Nat := { watcher, session, now := 0 }
      let next := state.step (.trigger true)
      next.session.space.tree.bytes? ["p", "out", "site.html"] ≠
          state.session.space.tree.bytes? ["p", "out", "site.html"] ∧
      let later : List (Step Nat) := [
        .event { change := some .created, source := "/p/out", onFolder := true },
        .clock 1,
        .event { change := some .modified, source := "p/../p/./out/site.html" }]
      (next.run later).starts = next.starts ∧ (next.run later).session = next.session := by
  intro session
  have hwatcher : Watcher.ofPaths session.space (Path.ofText "p") (Path.ofText "p/out/site.html")
      { includeBase := false } (0 : Nat) = .ok {
        root := ["p"]
        output := ["p", "out", "site.html"]
        options := { includeBase := false }
        debounce := 0 } := rfl
  refine ⟨_, hwatcher, ?_⟩
  intro state next
  have hbytes : next.session.space.tree.bytes? ["p", "out", "site.html"] ≠
      state.session.space.tree.bytes? ["p", "out", "site.html"] := by decide +kernel
  have hfolder : next.session.space.settle (Path.ofText "/p/out") = .ok ["p", "out"] := by decide +kernel
  have hfile : next.session.space.settle (Path.ofText "p/../p/./out/site.html") =
      .ok ["p", "out", "site.html"] := by decide +kernel
  have htrigger : Triggers state (.trigger true) true := .asked true
  refine ⟨hbytes, ?_⟩
  intro later
  have hlater : ∀ step ∈ later, Follows state.session next.session step :=
    List.forall_mem_cons.2 ⟨.told (.folder (.inl rfl) hfolder rfl (by decide +kernel)),
      List.forall_mem_cons.2 ⟨.clock 1, List.forall_mem_singleton.2
        (.told (.file (.inr rfl) hfile hbytes (by decide)))⟩⟩
  obtain ⟨hstarts, -, hsession⟩ :=
    own_events_ignored hwatcher (by decide) [] (.trigger true) true htrigger later hlater
  exact ⟨hstarts, hsession⟩

/-- A log file in the project is changed by every pass, and handled like any other file. -/
theorem own_log_event_starts_pass :
    let session : Session := {
      space := { tree := { nodes := [(["p"], .folder), (["p", "log.html"], .file ByteArray.empty)] } }
      logger := { level := Log.debug, handlers := [.file (Path.ofText "/p/log.html")], configured := true } }
    ∃ watcher, Watcher.ofPaths session.space (Path.ofText "p") (Path.ofText "p/site.css")
        { includeBase := false } (0 : Nat) = .ok watcher ∧
      let state : State Nat := { watcher, session, now := 0 }
      let next := state.step (.trigger true)
      next.session.space.tree.bytes? ["p", "log.html"] ≠
          state.session.space.tree.bytes? ["p", "log.html"] ∧
      (next.step (.event { change := some .modified, source := "/p/log.html" })).starts.length =
        next.starts.length + 1 := by
  intro session
  exact ⟨_, rfl, by decide +kernel, by decide +kernel⟩

end Watching

end UtilityCss
