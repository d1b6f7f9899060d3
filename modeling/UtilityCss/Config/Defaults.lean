import UtilityCss.Options
import UtilityCss.Value.Basic

/-!
# Default values of a configuration

A key that a configuration leaves out has a default. A list that is given replaces the default one; the
settings for watching are filled in one by one.
-/

namespace UtilityCss.Config

def defaultDebounce : Int := 500

def defaultWatch : Entries := [(.text "debounce_ms", .int defaultDebounce)]

def defaults : Entries := [
  (.text "version", .text "1.0"),
  (.text "prefix", .text Naming.defaultPrefix),
  (.text "allow_unprefixed", .bool false),
  (.text "include_base", .bool true),
  (.text "output", .text Options.defaultOutput),
  (.text "base_css", .null),
  (.text "scan_patterns", .texts Options.defaultPatterns),
  (.text "exclude_dirs", .texts Options.defaultExclusions),
  (.text "ignore_classes", .list []),
  (.text "watch", .mapping defaultWatch)]

/-- Entries on top of others; equal keys keep the place of the lower entry. -/
def onTop (base entries : Entries) : Entries :=
  entries.foldl (fun base entry => Entries.set entry.1 entry.2 base) base

def filled (entry : Scalar × Value) : Value :=
  match entry with
  | (.text "watch", .mapping entries) => .mapping (onTop defaultWatch entries)
  | (_, value) => value

def withDefaults (config : Entries) : Entries :=
  onTop defaults (config.map fun entry => (entry.1, filled entry))

end UtilityCss.Config
