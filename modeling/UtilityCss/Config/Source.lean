import UtilityCss.Config.Fault
import UtilityCss.Config.Preset
import UtilityCss.Value.Shown
import UtilityCss.Yaml.Fault

/-!
# Configuration files

What one configuration file holds by itself, and the references to other configurations in it. Nothing at
all is an empty configuration.
-/

namespace UtilityCss.Config

def ofValue (path : Path) (value : Value) : Except Fault Entries :=
  if !value.holds then .ok []
  else match value with
    | .mapping entries => .ok entries
    | _ => .error (.notMapping path)

def blockLength : Nat := 4096

/-- The characters that are looked at before a text breaks off: whole blocks, of which the first two come
together. -/
def looked (cs : List Char) : List Char :=
  let blocks := cs.length / blockLength
  if blocks < 2 then [] else cs.take (blocks * blockLength)

/-- The fault of a text that breaks off where bytes have a fault: the text may be malformed before that. -/
def brokenOff (reader : Yaml.Reader) (path : Path) (text : String) (fault : Text.Utf8.Fault) : Fault :=
  match reader false (String.ofList (looked text.toList)) with
  | .error .ended | .ok _ => .encoding fault
  | .error fault => .ofYaml path fault

def ofBytes (reader : Yaml.Reader) (path : Path) (bytes : ByteArray) : Except Fault Entries :=
  match Text.Utf8.readPieces bytes with
  | .cut text fault => .error (brokenOff reader path (Text.unifyNewlines text) fault)
  | .whole text =>
    match reader true (Text.unifyNewlines text) with
    | .ok value => ofValue path value
    | .error fault => .error (.ofYaml path fault)

def readFile (reader : Yaml.Reader) (space : Workspace) (path : Path) : Except Fault Entries :=
  match space.read path with
  | .error error => .error (.file error)
  | .ok bytes => ofBytes reader path bytes

def referenceValues (config : Entries) : Except Fault (List Value) :=
  match config.get? "extends" with
  | none => .ok []
  | some value =>
    if !value.holds then .ok []
    else match value with
      | .text reference => .ok [.text reference]
      | .list items => .ok items
      | .mapping entries => .ok (entries.map fun entry => .scalar entry.1)
      | .set items => .ok (items.map .scalar)
      | .pair first second => .ok [first, second]
      | .scalar (.bytes bytes) => .ok (bytes.map fun byte => .ofNat byte.toNat)
      | _ => .error .mistyped

def references (config : Entries) : Except Fault (List String) :=
  (referenceValues config).map fun values => (values.takeWhile Value.isShowable).map Value.shown

def isWritten (config : Entries) : Bool :=
  match referenceValues config with
  | .ok values => values.all Value.isShowable
  | .error _ => true

def circularNote (path : Path) : String := "Circular config reference detected: " ++ path.text

def missingNote (path : Path) : String := "Config file not found: " ++ path.text

def unknownNote (reference : String) : String :=
  "Unknown preset: " ++ reference ++ " (available: " ++ ", ".intercalate presetNames ++ ")"

def target (folder : Path) (reference : String) : Path := folder.join (Path.ofText reference)

def namedBase (config : Entries) : List Path :=
  match config.get? "base_css" with
  | some (.text name) => [Path.ofText name]
  | _ => []

def isPresetName (reference : String) : Bool := Text.beginsWith presetMark reference

def mentioned (reader : Yaml.Reader) (space : Workspace) (path : Path) : List Path :=
  match readFile reader space path with
  | .error _ => []
  | .ok config =>
    let references := match references config with
      | .ok references => references
      | .error _ => []
    (references.filter fun reference => !isPresetName reference).map (target path.parent) ++
      namedBase config

end UtilityCss.Config
