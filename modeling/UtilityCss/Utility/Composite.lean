import UtilityCss.Utility.Basic

/-!
# Composite utilities

Names that stand for several declarations at once: the font sizes with their line heights, truncation,
dividing lines between children, and transitions.
-/

namespace UtilityCss

structure Composite where
  declarations : String
  suffix : String := ""
  deriving DecidableEq, Repr

namespace Composite

def fontSizes : List (String × String × String) := [
  ("xs", "0.75rem", "1rem"),
  ("sm", "0.875rem", "1.25rem"),
  ("base", "1rem", "1.5rem"),
  ("lg", "1.125rem", "1.75rem"),
  ("xl", "1.25rem", "1.75rem"),
  ("2xl", "1.5rem", "2rem"),
  ("3xl", "1.875rem", "2.25rem"),
  ("4xl", "2.25rem", "2.5rem"),
  ("5xl", "3rem", "1"),
  ("6xl", "3.75rem", "1"),
  ("7xl", "4.5rem", "1"),
  ("8xl", "6rem", "1"),
  ("9xl", "8rem", "1")]

def transitions : List (String × String) := [
  ("transition", "color, background-color, border-color, text-decoration-color, fill, " ++
    "stroke, opacity, box-shadow, transform, filter, backdrop-filter"),
  ("transition-all", "all"),
  ("transition-colors",
    "color, background-color, border-color, text-decoration-color, fill, stroke"),
  ("transition-opacity", "opacity"),
  ("transition-shadow", "box-shadow"),
  ("transition-transform", "transform")]

def named : List (String × Composite) :=
  fontSizes.map (fun (name, size, lineHeight) =>
    ("text-" ++ name,
      { declarations := declare ["font-size"] size ++ " " ++ declare ["line-height"] lineHeight })) ++
  [("truncate",
      { declarations := "overflow: hidden; text-overflow: ellipsis; white-space: nowrap;" }),
    ("sr-only",
      { declarations := "position: absolute; width: 1px; height: 1px; padding: 0; margin: -1px; " ++
          "overflow: hidden; clip: rect(0, 0, 0, 0); white-space: nowrap; border-width: 0;" }),
    ("not-sr-only",
      { declarations := "position: static; width: auto; height: auto; padding: 0; margin: 0; " ++
          "overflow: visible; clip: auto; white-space: normal;" }),
    ("break-normal", { declarations := "overflow-wrap: normal; word-break: normal;" }),
    ("divide-x",
      { declarations := "border-right-width: 0px; border-left-width: 1px;"
        suffix := betweenChildren }),
    ("divide-y",
      { declarations := "border-top-width: 1px; border-bottom-width: 0px;"
        suffix := betweenChildren })] ++
  transitions.map (fun (name, properties) =>
    (name, { declarations := declare ["transition-property"] properties ++
      " transition-timing-function: cubic-bezier(0.4, 0, 0.2, 1); transition-duration: 150ms;" }))

end Composite

def Token.composite? (token : Token) : Option Resolution :=
  if token.negative then none
  else (Composite.named.lookup token.name).map fun composite =>
    { strategy := .composite, declarations := composite.declarations, suffix := composite.suffix }

end UtilityCss
