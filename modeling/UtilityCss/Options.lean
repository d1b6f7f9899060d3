import UtilityCss.Token

/-!
# Options of a pass

How the utilities of a project are spelled, which of its files are scanned, and what its style sheet begins
with.
-/

namespace UtilityCss

structure Options where
  naming : Naming := {}
  scanPatterns : List String := ["*.razor", "*.cshtml", "*.html", "*.cs"]
  includeBase : Bool := true
  /-- A base sheet to take instead of the project's own. -/
  baseCss : Option String := none
  ignoreClasses : List String := []
  excludeDirs : List String := [".git", "node_modules", "bin", "obj", ".vs", "__pycache__"]
  deriving DecidableEq, Repr

namespace Options

def defaultPatterns : List String := ({} : Options).scanPatterns

def defaultExclusions : List String := ({} : Options).excludeDirs

def defaultOutput : String := "wwwroot/css/vibe.css"

def patterns (options : Options) : List String :=
  if options.scanPatterns.isEmpty then defaultPatterns else options.scanPatterns

theorem patterns_of_ne_nil (options : Options) (h : options.scanPatterns ≠ []) :
    options.patterns = options.scanPatterns := if_neg (by simpa using h)

end Options

end UtilityCss
