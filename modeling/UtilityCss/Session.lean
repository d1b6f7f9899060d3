import UtilityCss.Log.Logger
import UtilityCss.Yaml.Document

/-!
# Sessions

A session is a workspace with a logger and everything that was written to the terminal. `emit` hands a
record to the logger's handlers in turn; a handler that cannot write it leaves it out. A task is work on a
session that may fail.
-/

namespace UtilityCss

structure Session where
  space : Workspace := {}
  logger : Log.Logger := {}
  environment : Log.Environment := []
  /-- The texts written to the terminal, one for each record. -/
  printed : List String := []
  /-- The time of day as records show it. -/
  time : String := ""
  /-- The milliseconds that a pass takes, as its summary shows them. -/
  elapsed : Binary64 := .zero
  /-- What reads the texts of configurations. -/
  reader : Yaml.Reader := Value.ofYaml

namespace Session

open Log

def handle (session : Session) (record : Record) : Handler → Session
  | .terminal format =>
    { session with printed := session.printed ++ (format.apply session.time record).toList }
  | .file path =>
    { session with space := appendLine session.space path (record.json? session.time) }

def emit (session : Session) (record : Record) : Session :=
  if session.logger.writes record then
    session.logger.handlers.foldl (fun session handler => session.handle record handler) session
  else session

def say (session : Session) (message : String) : Session := session.emit { message }

def sayAll (session : Session) (messages : List String) : Session := messages.foldl say session

def note (session : Session) (message : String) : Session :=
  session.emit { level := debug, message }

def noteAll (session : Session) (messages : List String) : Session := messages.foldl note session

def warn (session : Session) (message : String) : Session :=
  session.emit { level := warning, message }

def warnAll (session : Session) (messages : List String) : Session := messages.foldl warn session

def reconfigure (session : Session) (level format : Option String) (force : Bool) : Session × Option FileError :=
  let (logger, space, error) := session.logger.configure level format force session.environment session.space
  ({ session with logger, space }, error)

def configure (session : Session) (level format : Option String) (force : Bool) :
    Except FileError Session :=
  match session.reconfigure level format force with
  | (session, none) => .ok session
  | (_, some error) => .error error

end Session

/-- Work on a session that may fail; what was written before a failure stays written. -/
abbrev Task (ε : Type) := EStateM ε Session

namespace Task

variable {ε δ α : Type}

def emit (record : Log.Record) : Task ε Unit := modify fun session => session.emit record

def say (message : String) : Task ε Unit := modify fun session => session.say message

def sayAll (messages : List String) : Task ε Unit := modify fun session => session.sayAll messages

def note (message : String) : Task ε Unit := modify fun session => session.note message

def noteAll (messages : List String) : Task ε Unit := modify fun session => session.noteAll messages

def warnAll (messages : List String) : Task ε Unit := modify fun session => session.warnAll messages

def ask (f : Session → α) : Task ε α := do return f (← get)

def print (lines : List String) : Task ε Unit :=
  modify fun session => { session with printed := session.printed ++ lines }

def setLevel (level : Int) : Task ε Unit :=
  modify fun session => { session with logger := session.logger.setLevel level }

def configure : Task FileError Unit := do
  match (← get).configure none none false with
  | .ok session => set session
  | .error error => throw error

def look (f : Workspace → Except ε α) : Task ε α := do
  match f (← get).space with
  | .ok value => return value
  | .error error => throw error

def change (f : Workspace → Workspace × Option ε) : Task ε Unit := do
  let (space, error) := f (← get).space
  modify fun session => { session with space }
  match error with
  | none => return
  | some error => throw error

def explain (f : ε → δ) (task : Task ε α) : Task δ α := task.adaptExcept f

def attempt (task : Task ε α) : Task δ (Except ε α) := fun session =>
  match task session with
  | .ok value session => .ok (.ok value) session
  | .error error session => .ok (.error error) session

/-! What a task does to a session. -/

section Application

variable {β : Type} (session : Session)

@[simp] theorem pure_apply (value : α) : (pure value : Task ε α) session = .ok value session := rfl

@[simp] theorem throw_apply (error : ε) : (throw error : Task ε α) session = .error error session := rfl

@[simp] theorem bind_apply (task : Task ε α) (next : α → Task ε β) :
    (task >>= next) session = match task session with
      | .ok value session => next value session
      | .error error session => .error error session := by
  simp only [bind, EStateM.bind]
  cases task session <;> rfl

@[simp] theorem map_apply (f : α → β) (task : Task ε α) :
    (f <$> task) session = match task session with
      | .ok value session => .ok (f value) session
      | .error error session => .error error session := by
  simp only [Functor.map, EStateM.map]
  cases task session <;> rfl

@[simp] theorem get_apply : (get : Task ε Session) session = .ok session session := rfl

@[simp] theorem modify_apply (f : Session → Session) :
    (modify f : Task ε Unit) session = .ok () (f session) := rfl

@[simp] theorem emit_apply (record : Log.Record) :
    (emit record : Task ε Unit) session = .ok () (session.emit record) := rfl

@[simp] theorem say_apply (message : String) :
    (say message : Task ε Unit) session = .ok () (session.say message) := rfl

@[simp] theorem note_apply (message : String) :
    (note message : Task ε Unit) session = .ok () (session.note message) := rfl

@[simp] theorem noteAll_apply (messages : List String) :
    (noteAll messages : Task ε Unit) session = .ok () (session.noteAll messages) := rfl

@[simp] theorem sayAll_apply (messages : List String) :
    (sayAll messages : Task ε Unit) session = .ok () (session.sayAll messages) := rfl

@[simp] theorem ask_apply (f : Session → α) : (ask f : Task ε α) session = .ok (f session) session := rfl

@[simp] theorem look_apply (f : Workspace → Except ε α) :
    look f session = match f session.space with
      | .ok value => .ok value session
      | .error error => .error error session := by
  simp only [look, bind_apply, get_apply]
  cases f session.space <;> rfl

@[simp] theorem change_apply (f : Workspace → Workspace × Option ε) :
    change f session = match f session.space with
      | (space, none) => .ok () { session with space }
      | (space, some error) => .error error { session with space } := by
  simp only [change, bind_apply, get_apply, modify_apply]
  rcases f session.space with ⟨space, _ | error⟩ <;> rfl

@[simp] theorem explain_apply (f : ε → δ) (task : Task ε α) :
    explain f task session = match task session with
      | .ok value session => .ok value session
      | .error error session => .error (f error) session := by
  simp only [explain, EStateM.adaptExcept]
  cases task session <;> rfl

@[simp] theorem attempt_apply (task : Task ε α) :
    (attempt task : Task δ (Except ε α)) session = match task session with
      | .ok value session => .ok (.ok value) session
      | .error error session => .ok (.error error) session := rfl

end Application

end Task

end UtilityCss
