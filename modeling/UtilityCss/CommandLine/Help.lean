import UtilityCss.Config.Load

/-!
# Help

What a line learns that asks for help: an overview of the commands, or the arguments of one of them.
-/

namespace UtilityCss.CommandLine.Help

def choices : String := "\x7bscan,generate,init,validate\x7d"

def overview : List String := [
  "usage: vibecss [-h] [--version] " ++ choices ++ " ...",
  "",
  "vibecss - JIT utility CSS for Razor, Blazor and HTML projects",
  "",
  "positional arguments:",
  "  " ++ choices,
  "    scan                Scan for classes without generating",
  "    generate            Generate the stylesheet",
  "    init                Create " ++ Config.fileName,
  "    validate            Validate " ++ Config.fileName,
  "",
  "options:",
  "  -h, --help            show this help message and exit",
  "  --version             show program's version number and exit",
  "",
  "Examples:",
  "  vibecss scan                     Show recognized and unknown classes",
  "  vibecss generate                 Write wwwroot/css/vibe.css",
  "  vibecss generate -o site.css     Write to a custom path",
  "  vibecss generate --watch         Regenerate on save",
  "  vibecss init                     Create " ++ Config.fileName,
  "  vibecss validate                 Check " ++ Config.fileName,
  "        "]

def passArguments : List String := [
  "",
  "positional arguments:",
  "  path                  Project directory (default: .)",
  "",
  "options:",
  "  -h, --help            show this help message and exit",
  "  --patterns PATTERNS   Comma-separated file globs, e.g. '*.razor,*.html'",
  "  --prefix PREFIX       Class prefix (default: vibe)",
  "  --allow-unprefixed    Also accept unprefixed utilities",
  "  --config CONFIG, -c CONFIG",
  "                        Path to " ++ Config.fileName,
  "  --verbose, -v         Verbose output"]

def scan : List String := [
  "usage: vibecss scan [-h] [--patterns PATTERNS] [--prefix PREFIX]",
  "                    [--allow-unprefixed] [--config CONFIG] [--verbose]",
  "                    [path]"] ++ passArguments

def generate : List String := [
  "usage: vibecss generate [-h] [--patterns PATTERNS] [--prefix PREFIX]",
  "                        [--allow-unprefixed] [--config CONFIG] [--verbose]",
  "                        [--output OUTPUT] [--with-base [true|false]] [--watch]",
  "                        [path]"] ++ passArguments ++ [
  "  --output OUTPUT, -o OUTPUT",
  "                        Output file (default: from config)",
  "  --with-base [true|false]",
  "                        Prepend the base stylesheet (default: true)",
  "  --watch, -w           Regenerate on file changes"]

def init : List String := [
  "usage: vibecss init [-h] [target]",
  "",
  "positional arguments:",
  "  target      Where to write the config",
  "",
  "options:",
  "  -h, --help  show this help message and exit"]

def validate : List String := [
  "usage: vibecss validate [-h] [--config CONFIG]",
  "",
  "options:",
  "  -h, --help            show this help message and exit",
  "  --config CONFIG, -c CONFIG",
  "                        Path to " ++ Config.fileName]

def lines : Option String → List String
  | some "scan" => scan
  | some "generate" => generate
  | some "init" => init
  | some "validate" => validate
  | _ => overview

end UtilityCss.CommandLine.Help
