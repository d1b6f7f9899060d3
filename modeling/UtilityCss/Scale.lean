import UtilityCss.Decimal

/-!
# Scales

A scale turns the last part of a utility name into a CSS length. Every scale holds the spacing indices,
where index n stands for n quarters of a rem; the sizing scales add keywords and fractions of the parent.
-/

namespace UtilityCss

inductive Scale
  | spacing
  | margin
  | sizing
  | height
  | inset
  deriving DecidableEq, Repr

namespace Scale

def ofName? : String → Option Scale
  | "spacing" => some spacing
  | "margin" => some margin
  | "sizing" => some sizing
  | "height" => some height
  | "inset" => some inset
  | _ => none

def spacingKeys : List String := [
  "0", "0.5", "1", "1.5", "2", "2.5", "3", "3.5", "4", "5", "6", "7", "8",
  "9", "10", "11", "12", "14", "16", "20", "24", "28", "32", "36", "40",
  "44", "48", "52", "56", "60", "64", "72", "80", "96"]

def spacingValue? (key : String) : Option String :=
  if key = "px" then some "1px"
  else if key = "0" then some "0"
  else if spacingKeys.contains key then
    (Decimal.ofText? key).map fun index => index.quarter.render ++ "rem"
  else none

def denominators : List Nat := [2, 3, 4, 5, 6, 12]

/-- A proper fraction of the parent as a percentage with at most six decimals. -/
def fractionValue? (key : String) : Option String := do
  let (above, below) ← Text.firstCut? '/' (Text.withoutFinalNewline key.toList)
  let numerator ← Text.digits? 2 above
  let denominator ← Text.digits? 2 below
  if denominators.contains denominator && 0 < numerator && numerator < denominator then
    some ((Decimal.millionths (Decimal.roundHalfUp (numerator * 100000000) denominator)).render ++ "%")
  else none

def sizingKeywords : List (String × String) := [
  ("auto", "auto"),
  ("full", "100%"),
  ("screen", "100vw"),
  ("svw", "100svw"),
  ("lvw", "100lvw"),
  ("dvw", "100dvw"),
  ("min", "min-content"),
  ("max", "max-content"),
  ("fit", "fit-content")]

def heightKeywords : List (String × String) := [
  ("auto", "auto"),
  ("full", "100%"),
  ("screen", "100vh"),
  ("min", "min-content"),
  ("max", "max-content"),
  ("fit", "fit-content"),
  ("svh", "100svh"),
  ("lvh", "100lvh"),
  ("dvh", "100dvh")]

def insetKeywords : List (String × String) := [("auto", "auto"), ("full", "100%")]

def relative? (keywords : List (String × String)) (key : String) : Option String :=
  keywords.lookup key <|> fractionValue? key <|> spacingValue? key

def value? : Scale → String → Option String
  | spacing, key => spacingValue? key
  | margin, key => if key = "auto" then some "auto" else spacingValue? key
  | sizing, key => relative? sizingKeywords key
  | height, key => relative? heightKeywords key
  | inset, key => relative? insetKeywords key

def translation? (key : String) : Option String :=
  if key = "full" then some "100%" else fractionValue? key <|> spacingValue? key

end Scale

end UtilityCss
