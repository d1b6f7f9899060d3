import UtilityCss.Config.Defaults
import UtilityCss.Config.Fault
import UtilityCss.Value.Ordered

/-!
# Settings of a configuration

What a configuration says about passes, read without checking it first: any value counts as yes or no, a
text in place of a list stands for its characters and a mapping for its keys. `Settings.options?` gives the
options of a pass when every value is of the kind that it should be.
-/

namespace UtilityCss

structure Settings where
  classPrefix : Value
  permissive : Bool
  scanPatterns : List Value
  includeBase : Bool
  baseCss : Value
  ignoreClasses : List Scalar
  excludeDirs : List Value
  deriving BEq, Repr

namespace Settings

def items? : Value → Option (List Value)
  | .list items => some items
  | .text s => some (s.toList.map fun c => .text (String.singleton c))
  | .mapping entries => some (entries.map fun entry => .scalar entry.1)
  | .set items => some (items.map Value.scalar)
  | .pair first second => some [first, second]
  | .scalar (.bytes bytes) => some (bytes.map fun byte => .ofNat byte.toNat)
  | _ => none

def scalar? : Value → Option Scalar
  | .scalar s => some s
  | _ => none

def prefixOf : Value → Value
  | .null => .text ""
  | value => value

/-- The settings of a configuration that has a value for every key. None when a list is given as something
without items, or holds a collection where only scalars can be. -/
def ofFilled? (config : Entries) : Option Settings := do
  let scanPatterns ← items? (← config.get? "scan_patterns")
  let ignoreClasses ← (← items? (← config.get? "ignore_classes")).mapM scalar?
  let excludeDirs ← items? (← config.get? "exclude_dirs")
  some {
    classPrefix := prefixOf (← config.get? "prefix")
    permissive := (← config.get? "allow_unprefixed").holds
    scanPatterns
    includeBase := (← config.get? "include_base").holds
    baseCss := (← config.get? "base_css")
    ignoreClasses
    excludeDirs }

def ofConfig? (config : Entries) : Option Settings := ofFilled? (Config.withDefaults config)

def maybeText? : Value → Option (Option String)
  | .null => some none
  | .text s => some (some s)
  | _ => none

def options? (settings : Settings) : Option Options := do
  let classPrefix ← settings.classPrefix.text?
  let scanPatterns ← settings.scanPatterns.mapM Value.text?
  let baseCss ← maybeText? settings.baseCss
  let ignoreClasses ← settings.ignoreClasses.mapM Scalar.text?
  let excludeDirs ← settings.excludeDirs.mapM Value.text?
  some {
    naming := { classPrefix, permissive := settings.permissive }
    scanPatterns
    includeBase := settings.includeBase
    baseCss
    ignoreClasses
    excludeDirs }

end Settings

namespace Config

def wholeSeconds (n : Int) : Except Fault Binary64 :=
  match Binary64.ofRatio (decide (n < 0)) n.natAbs 1000 with
  | .infinite _ => .error .tooGreat
  | seconds => .ok seconds

def seconds : Value → Except Fault Binary64
  | .bool b => wholeSeconds (if b then 1 else 0)
  | .int n => wholeSeconds n
  | .real x => .ok (x.divNat 1000)
  | _ => .error .mistyped

def debounce (config : Entries) : Except Fault Binary64 :=
  let watch := ((withDefaults config).get? "watch").bind Value.entries?
  match watch.bind fun watch => Entries.get? watch "debounce_ms" with
  | some value => seconds value
  | none => .error .mistyped

end Config

end UtilityCss
