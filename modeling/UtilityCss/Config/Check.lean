import UtilityCss.Config.Defaults
import UtilityCss.Config.Fault
import UtilityCss.Text.Alphanumeric
import UtilityCss.Value.Ordered
import UtilityCss.Value.Shown

/-!
# Checking a configuration

The complaints about a configuration, in a fixed order: first about each key that has a meaning, then about
the keys that have none, sorted. Keys of different kinds cannot be sorted, and a number that is too long
cannot be written.
-/

namespace UtilityCss.Config

def complainIf (wrong : Bool) (complaint : String) : List String :=
  if wrong then [complaint] else []

def isPrefixWord (s : String) : Bool :=
  let cs := s.toList.filter fun c => c != '-' && c != '_'
  !cs.isEmpty && cs.all Text.isAlphanumeric

def prefixComplaints (config : Entries) : List String :=
  match (config.get? "prefix").getD (.text Naming.defaultPrefix) with
  | .text s =>
    complainIf (!s.isEmpty && !isPrefixWord s)
      ("'prefix' must be alphanumeric: " ++ Text.quoted s)
  | _ => ["'prefix' must be a string"]

def switchComplaints (config : Entries) (key : String) : List String :=
  complainIf ((config.get? key).any fun value => value.bool?.isNone) s!"'{key}' must be true or false"

/-- A path may be left open by a null. -/
def isPath : Value → Bool
  | .null => true
  | value => value.text?.isSome

def pathComplaints (config : Entries) (key : String) : List String :=
  complainIf ((config.get? key).any fun value => !isPath value) s!"'{key}' must be a path string"

def listComplaints (config : Entries) (key : String) : List String :=
  complainIf ((config.get? key).any fun value => value.texts?.isNone)
    s!"'{key}' must be a list of strings"

def isEmptyList : Value → Bool
  | .list [] => true
  | _ => false

/-- Numbers that are not below zero; what is no number at all is not below zero either. -/
def isDebounce : Value → Bool
  | .int n => decide (0 ≤ n)
  | .real x => !decide (x < Binary64.zero)
  | _ => false

def watchComplaints (config : Entries) : List String :=
  match (config.get? "watch").getD (.mapping []) with
  | .mapping entries =>
    complainIf (!isDebounce ((Entries.get? entries "debounce_ms").getD (.int defaultDebounce)))
      "'watch.debounce_ms' must be a non-negative number"
  | _ => ["'watch' must be a mapping"]

def isKnown (key : Scalar) : Bool :=
  defaults.any (fun entry => entry.1 = key) || key = .text "extends"

def unknownKeys (config : Entries) : List Scalar :=
  (config.map Prod.fst).filter fun key => !isKnown key

def valueComplaints (config : Entries) : List String :=
  complainIf (!config.has "version") "Missing 'version' field" ++
  prefixComplaints config ++
  ["allow_unprefixed", "include_base"].flatMap (switchComplaints config) ++
  ["output", "base_css"].flatMap (pathComplaints config) ++
  ["scan_patterns", "exclude_dirs", "ignore_classes"].flatMap (listComplaints config) ++
  complainIf ((config.get? "scan_patterns").any isEmptyList) "'scan_patterns' must not be empty" ++
  watchComplaints config

def unknownComplaint (key : Scalar) : String := s!"Unknown key: '{key.shown}'"

/-- All complaints, unless keys without a meaning cannot be sorted or one of them cannot be written. -/
def complaints (config : Entries) : Except Fault (List String) :=
  match Scalar.ordered? (unknownKeys config) with
  | none => .error .mistyped
  | some keys =>
    if keys.all Scalar.isShowable then .ok (valueComplaints config ++ keys.map unknownComplaint)
    else .error .unwritable

def complaints? (config : Entries) : Option (List String) := (complaints config).toOption

end UtilityCss.Config
