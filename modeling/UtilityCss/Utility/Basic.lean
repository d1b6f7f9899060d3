import UtilityCss.Token

/-!
# Resolutions

A utility name is looked up in nine families. What a family finds is a resolution: the declarations of the
rule, what follows the class in its selector, rules that accompany it, and keyframes that it runs.
-/

namespace UtilityCss

inductive Strategy
  | arbitrary
  | exact
  | scale
  | color
  | composite
  | formula
  | transform
  | gradient
  | multi
  deriving DecidableEq, Repr

def Strategy.name : Strategy → String
  | arbitrary => "arbitrary"
  | exact => "exact"
  | scale => "scale"
  | color => "color"
  | composite => "composite"
  | formula => "formula"
  | transform => "transform"
  | gradient => "gradient"
  | multi => "multi"

/-- A rule beside the utility's own; its selector surrounds each selector of the utility. -/
structure Companion where
  /-- One pair per selector of the companion: what stands before and after the utility's selector. -/
  around : List (String × String)
  declarations : String
  deriving DecidableEq, Repr

structure Resolution where
  strategy : Strategy
  declarations : String
  suffix : String := ""
  companions : List Companion := []
  keyframes : List String := []
  deriving DecidableEq, Repr

def declare (properties : List String) (value : String) : String :=
  " ".intercalate (properties.map fun property => property ++ ": " ++ value ++ ";")

def betweenChildren : String := " > :not([hidden]) ~ :not([hidden])"

end UtilityCss
