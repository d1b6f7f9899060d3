import UtilityCss.Utility.Colored

/-!
# Gradients

`bg-gradient-to-r` sets the direction; `from-`, `via-` and `to-` set the stops, each with a color.
-/

namespace UtilityCss

namespace Gradient

def directions : List (String × String) := [
  ("t", "top"),
  ("tr", "top right"),
  ("r", "right"),
  ("br", "bottom right"),
  ("b", "bottom"),
  ("bl", "bottom left"),
  ("l", "left"),
  ("tl", "top left")]

def openEnd : String := "var(--tw-gradient-to, rgb(255 255 255 / 0))"

inductive Stop
  | start
  | middle
  | finish
  deriving DecidableEq, Repr

def Stop.ofName? : String → Option Stop
  | "from" => some start
  | "via" => some middle
  | "to" => some finish
  | _ => none

def Stop.declarations (color : String) : Stop → String
  | start => declare ["--tw-gradient-from"] color ++ " " ++
      declare ["--tw-gradient-stops"] ("var(--tw-gradient-from), " ++ openEnd)
  | middle => declare ["--tw-gradient-stops"]
      ("var(--tw-gradient-from), " ++ color ++ ", " ++ openEnd)
  | finish => declare ["--tw-gradient-to"] color

end Gradient

def Token.gradient? (naming : Naming) (token : Token) : Option Resolution := do
  guard (!token.negative)
  match Text.after? "bg-gradient-to-" token.name with
  | some corner => do
    let direction ← Gradient.directions.lookup corner
    some {
      strategy := .gradient
      declarations := declare ["background-image"]
        ("linear-gradient(to " ++ direction ++ ", var(--tw-gradient-stops))") }
  | none => do
    let (head, rest) ← Text.cutFirst? '-' token.name
    let stop ← Gradient.Stop.ofName? head
    let color ← token.colorAfter? naming rest
    some { strategy := .gradient, declarations := stop.declarations color }

end UtilityCss
