import UtilityCss.Token
import UtilityCss.Value.Basic

/-!
# Presets

Configurations that others can build on by name.
-/

namespace UtilityCss.Config

def presetMark : String := "@vibecss/"

def unprefixed : Entries := [
  (.text "version", .text "1.0"),
  (.text "prefix", .text Naming.defaultPrefix),
  (.text "allow_unprefixed", .bool true)]

def web : Entries := [
  (.text "version", .text "1.0"),
  (.text "scan_patterns", .texts ["*.html", "*.htm", "*.jsx", "*.tsx", "*.vue", "*.svelte"]),
  (.text "exclude_dirs", .texts [".git", "node_modules", "dist", "build"])]

def presets : List (String × Entries) := [("unprefixed", unprefixed), ("web", web)]

def presetNames : List String := presets.map fun preset => presetMark ++ preset.1

def preset? (reference : String) : Option Entries :=
  (Text.after? presetMark reference).bind fun name => presets.lookup name

end UtilityCss.Config
