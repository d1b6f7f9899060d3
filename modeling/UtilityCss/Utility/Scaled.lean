import UtilityCss.Scale
import UtilityCss.Utility.Basic

/-!
# Lengths on a scale

`mt-4`, `w-1/2`, `gap-x-px`: a family name, a dash and a key of the family's scale. A sign negates the
length in families that allow it.
-/

namespace UtilityCss

structure ScaleFamily where
  properties : List String
  scale : Scale
  negatable : Bool := false
  suffix : String := ""
  deriving DecidableEq, Repr

namespace ScaleFamily

private def spaced (properties : List String) : ScaleFamily := { properties, scale := .spacing }
private def margined (properties : List String) : ScaleFamily :=
  { properties, scale := .margin, negatable := true }
private def sized (properties : List String) : ScaleFamily := { properties, scale := .sizing }
private def heighted (properties : List String) : ScaleFamily := { properties, scale := .height }
private def placed (properties : List String) : ScaleFamily :=
  { properties, scale := .inset, negatable := true }
private def separated (properties : List String) : ScaleFamily :=
  { properties, scale := .spacing, negatable := true, suffix := betweenChildren }

def named : List (String × ScaleFamily) := [
  ("p", spaced ["padding"]),
  ("px", spaced ["padding-left", "padding-right"]),
  ("py", spaced ["padding-top", "padding-bottom"]),
  ("pt", spaced ["padding-top"]),
  ("pr", spaced ["padding-right"]),
  ("pb", spaced ["padding-bottom"]),
  ("pl", spaced ["padding-left"]),
  ("ps", spaced ["padding-inline-start"]),
  ("pe", spaced ["padding-inline-end"]),
  ("m", margined ["margin"]),
  ("mx", margined ["margin-left", "margin-right"]),
  ("my", margined ["margin-top", "margin-bottom"]),
  ("mt", margined ["margin-top"]),
  ("mr", margined ["margin-right"]),
  ("mb", margined ["margin-bottom"]),
  ("ml", margined ["margin-left"]),
  ("ms", margined ["margin-inline-start"]),
  ("me", margined ["margin-inline-end"]),
  ("gap", spaced ["gap"]),
  ("gap-x", spaced ["column-gap"]),
  ("gap-y", spaced ["row-gap"]),
  ("space-x", separated ["margin-left"]),
  ("space-y", separated ["margin-top"]),
  ("w", sized ["width"]),
  ("min-w", sized ["min-width"]),
  ("max-w", sized ["max-width"]),
  ("h", heighted ["height"]),
  ("min-h", heighted ["min-height"]),
  ("max-h", heighted ["max-height"]),
  ("size", sized ["width", "height"]),
  ("basis", sized ["flex-basis"]),
  ("inset", placed ["inset"]),
  ("inset-x", placed ["left", "right"]),
  ("inset-y", placed ["top", "bottom"]),
  ("top", placed ["top"]),
  ("right", placed ["right"]),
  ("bottom", placed ["bottom"]),
  ("left", placed ["left"]),
  ("leading", spaced ["line-height"])]

end ScaleFamily

/-- The negated length. Only a length that begins with a digit has one, and zero is its own. -/
def negated? (value : String) : Option String :=
  match value.toList with
  | c :: _ => if !c.isDigit then none else if value = "0" then some value else some ("-" ++ value)
  | [] => none

def Token.scaled? (token : Token) : Option Resolution := do
  let (head, key) ← Text.cutLast? '-' token.name
  let family ← ScaleFamily.named.lookup head
  let positive ← family.scale.value? key
  let value ←
    if !token.negative then some positive
    else if family.negatable then negated? positive
    else none
  some {
    strategy := .scale
    declarations := declare family.properties value
    suffix := family.suffix }

end UtilityCss
