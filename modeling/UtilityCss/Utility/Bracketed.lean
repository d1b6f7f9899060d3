import UtilityCss.Rgb
import UtilityCss.Text.Blank
import UtilityCss.Utility.Basic

/-!
# Bracketed values

`w-[37px]`, `text-[#fff]`: a property key and a value that is copied as it stands. The value may hold
nothing that ends its declaration.
-/

namespace UtilityCss

namespace Bracketed

/-- Characters that would let a value leave its declaration. -/
def forbidden : List Char := [';', '\x7b', '\x7d', '\n', '\r', '\t', '\x00']

def properties : List (String × List String) := [
  ("w", ["width"]),
  ("h", ["height"]),
  ("min-w", ["min-width"]),
  ("min-h", ["min-height"]),
  ("max-w", ["max-width"]),
  ("max-h", ["max-height"]),
  ("size", ["width", "height"]),
  ("basis", ["flex-basis"]),
  ("p", ["padding"]),
  ("pt", ["padding-top"]),
  ("pr", ["padding-right"]),
  ("pb", ["padding-bottom"]),
  ("pl", ["padding-left"]),
  ("px", ["padding-left", "padding-right"]),
  ("py", ["padding-top", "padding-bottom"]),
  ("m", ["margin"]),
  ("mt", ["margin-top"]),
  ("mr", ["margin-right"]),
  ("mb", ["margin-bottom"]),
  ("ml", ["margin-left"]),
  ("mx", ["margin-left", "margin-right"]),
  ("my", ["margin-top", "margin-bottom"]),
  ("gap", ["gap"]),
  ("gap-x", ["column-gap"]),
  ("gap-y", ["row-gap"]),
  ("text", ["font-size"]),
  ("bg", ["background-color"]),
  ("border", ["border-width"]),
  ("rounded", ["border-radius"]),
  ("top", ["top"]),
  ("right", ["right"]),
  ("bottom", ["bottom"]),
  ("left", ["left"]),
  ("inset", ["inset"]),
  ("z", ["z-index"]),
  ("opacity", ["opacity"]),
  ("leading", ["line-height"]),
  ("tracking", ["letter-spacing"]),
  ("grid-cols", ["grid-template-columns"]),
  ("grid-rows", ["grid-template-rows"]),
  ("col-span", ["grid-column"]),
  ("row-span", ["grid-row"]),
  ("duration", ["transition-duration"]),
  ("accent", ["accent-color"]),
  ("caret", ["caret-color"]),
  ("fill", ["fill"]),
  ("stroke", ["stroke"])]

def colorProperties : List (String × List String) :=
  [("text", ["color"]), ("border", ["border-color"])]

def colorFunctions : List String := ["rgb", "rgba", "hsl", "hsla", "oklch", "color-mix"]

def isColor (value : String) : Bool :=
  let cs := Text.withoutFinalNewline value.toList
  match cs with
  | '#' :: digits =>
    3 ≤ digits.length && digits.length ≤ 8 && digits.all fun c => (Rgb.hexDigit? c).isSome
  | _ => colorFunctions.any fun function =>
    match (function.toList ++ ['(']).isPrefixOf? cs with
    | some rest => rest.getLast? = some ')' && !rest.contains '\n'
    | none => false

def propertiesOf? (key value : String) : Option (List String) :=
  match colorProperties.lookup key with
  | some colored => if isColor value then some colored else properties.lookup key
  | none => properties.lookup key

def isAllowed (value : String) : Bool :=
  !Text.allBlank value.toList && !value.toList.any forbidden.contains

end Bracketed

def Token.bracketed? (token : Token) : Option Resolution := do
  let (key, value) ← token.arbitrary
  guard (!token.negative && Bracketed.isAllowed value)
  let properties ← Bracketed.propertiesOf? key value
  some { strategy := .arbitrary, declarations := declare properties value }

end UtilityCss
