import UtilityCss.Colour
import UtilityCss.Pass.Generate
import UtilityCss.Size

/-!
# Summaries

What the commands say when they are done. Long lists of classes are cut short, and end with the number of
classes that are left out.
-/

namespace UtilityCss.CommandLine

def bar : String := String.ofList (List.replicate 40 '=')

def item (text : String) : String := "  - " ++ text

def listed (title : String) (limit : Nat) (items : List String) : List String :=
  title :: (items.take limit).map item ++
    if limit < items.length then [s!"  ... and {items.length - limit} more"] else []

def listedAny (title : String) (limit : Nat) (items : List String) : List String :=
  if items.isEmpty then [] else listed title limit items

def greatestRecognized : Nat := 50

def greatestUnknown : Nat := 20

def errorLine (message : String) : String := Colour.red.paint "Error:" ++ " " ++ message

def configLine (message : String) : String := Colour.red.paint "ERROR:" ++ " " ++ message

def recognizedTitle : String := Colour.green.paint "Recognized classes:"

def scanTitle (project : Path) : String :=
  Colour.blue.paint "Scanning" ++ " " ++ project.text ++ " for CSS classes..."

def scanSummary (classes : Classification) : List String :=
  [bar,
    s!"Total classes found: {classes.total}",
    s!"{recognizedTitle} {classes.recognized.length}",
    Colour.yellow.paint "Unknown classes:" ++ s!" {classes.unknown.length}",
    bar] ++
  listedAny recognizedTitle greatestRecognized classes.recognized ++
  listedAny (Colour.yellow.paint "Unknown classes (not generated):") greatestUnknown classes.unknown

def generateTitle (project : Path) : String :=
  Colour.blue.paint "Generating CSS" ++ " from " ++ project.text ++ "..."

def generateSummary (output : Path) (classes : Classification) (size : Nat) : List String :=
  [bar,
    s!"Classes found:       {classes.total}",
    s!"CSS rules generated: {classes.recognized.length}",
    "Output file:         " ++ output.text,
    "File size:           " ++ Size.text (Int.ofNat size),
    bar] ++
  listedAny (Colour.yellow.paint "Warning:" ++ s!" {classes.unknown.length} unknown classes were skipped:")
    greatestUnknown classes.unknown ++
  [Colour.green.paint "OK" ++ " CSS generated successfully at " ++ Colour.blue.paint output.text]

def reportSummary (report : Report) : List String :=
  match report.outcome with
  | .failed reason => [errorLine reason]
  | .written classes size => generateSummary report.output classes size

def existsLine (target : Path) : String := Colour.yellow.paint (target.text ++ " already exists")

def initSummary (target : Path) : List String := [
  Colour.green.paint ("Created " ++ target.text),
  "Next steps:",
  "  1. Edit " ++ target.text ++ " to set your prefix and scan patterns",
  "  2. Run: vibecss generate",
  "  3. Or keep it fresh while you work: vibecss generate --watch"]

end UtilityCss.CommandLine
