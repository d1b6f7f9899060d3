import UtilityCss.Pass.Base
import UtilityCss.Pass.Scan

/-!
# Generating a style sheet

A pass scans a project, compiles its classes and writes the style sheet to one file. Whatever goes wrong
with the files becomes a report; nothing is written then, although folders may have been made. Only patterns
and paths that mean nothing end it without a report.
-/

namespace UtilityCss

inductive Outcome
  | written (classes : Classification) (size : Nat)
  | failed (reason : String)
  deriving DecidableEq, Repr

structure Report where
  output : Path
  outcome : Outcome
  deriving DecidableEq, Repr

def Report.succeeded (report : Report) : Bool :=
  match report.outcome with
  | .written .. => true
  | .failed _ => false

namespace Pass

def sheetText (options : Options) (classes : List String) (base : String) : String :=
  (Stylesheet.ofTokens options.naming classes base).render

def optionalBase (root : Option Path) (options : Options) : Task Failure String := do
  if options.includeBase then loadBase root options else return ""

def write (root output : Path) (options : Options) : Task Failure (Classification × Nat) := do
  let classes ← scan root options
  let base ← optionalBase (some root) options
  let bytes := (sheetText options classes base).toUTF8
  Task.explain Failure.file (Task.change fun space => space.save output bytes)
  return (Classification.ofCompiled options.naming classes, bytes.size)

def failureRecord (root : Path) (reason : String) : Log.Record where
  level := Log.warning
  message := "generate_failed"
  data := .mapping [(.text "path", .text root.text), (.text "error", .text reason)]

def successRecord (root output : Path) (classes : Classification) (size : Nat)
    (elapsed : Binary64) : Log.Record where
  level := Log.debug
  message := "generate_complete"
  data := .mapping [
    (.text "path", .text root.text),
    (.text "output", .text output.text),
    (.text "total", .ofNat classes.total),
    (.text "generated", .ofNat classes.recognized.length),
    (.text "unknown", .ofNat classes.unknown.length),
    (.text "bytes", .ofNat size),
    (.text "duration_ms", .real elapsed)]

def generate (root output : Path) (options : Options) : Task Failure Report := do
  match ← Task.attempt (write root output options) with
  | .ok (classes, size) =>
    Task.emit (successRecord root output classes size (← Task.ask Session.elapsed))
    return { output, outcome := .written classes size }
  | .error failure =>
    if failure.isReported then
      Task.emit (failureRecord root failure.message)
      return { output, outcome := .failed failure.message }
    else throw failure

def generateFromText (content : String) (kind : ContentKind) (options : Options) :
    Task Failure String := do
  let classes := options.scanner.scan content kind
  let base ← optionalBase none options
  return sheetText options classes base

end Pass

end UtilityCss
