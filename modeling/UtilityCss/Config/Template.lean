/-!
# The template of a configuration

What a new configuration file holds: every key with its usual value, and what it means.
-/

namespace UtilityCss.Config

def templateLines : List String := [
  "# vibecss configuration",
  "# Docs: vibecss --help",
  "",
  "version: \"1.0\"",
  "",
  "# Class prefix: utilities are written vibe-flex, hover:vibe-bg-primary, ...",
  "prefix: vibe",
  "",
  "# Also generate utilities written without the prefix (flex, p-4)",
  "allow_unprefixed: false",
  "",
  "# Prepend the base stylesheet (CSS variables, keyframes)",
  "include_base: true",
  "",
  "# Generated stylesheet, relative to the scanned directory",
  "output: wwwroot/css/vibe.css",
  "",
  "# Optional explicit base stylesheet (defaults to wwwroot/css/vibe-base.css,",
  "# then the bundled one)",
  "# base_css: wwwroot/css/my-base.css",
  "",
  "scan_patterns:",
  "  - \"*.razor\"",
  "  - \"*.cshtml\"",
  "  - \"*.html\"",
  "  - \"*.cs\"",
  "",
  "exclude_dirs:",
  "  - .git",
  "  - node_modules",
  "  - bin",
  "  - obj",
  "  - .vs",
  "",
  "# Tokens that look like utilities but are not (false positives)",
  "ignore_classes: []",
  "",
  "watch:",
  "  debounce_ms: 500",
  "",
  "# Inherit from a preset or another file",
  "# extends: \"@vibecss/web\""]

def template : String := String.join (templateLines.map fun line => line ++ "\n")

end UtilityCss.Config
