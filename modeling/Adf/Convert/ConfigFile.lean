import Adf.Convert.Config
import Adf.Decimal
import Adf.Text.Quoted
import Adf.Toml.Reader

/-!
# Options from a file

A TOML document may give any of the options `table-layout`, `external-media` and `image-layout`. It must give
nothing else, and each of them with a value of the right type; the first key that does not conform is
reported. Only then are the names of layouts looked at. A document with a fault in it changes no option.
-/

namespace Adf.Convert

inductive ConfigError where
  /-- A layout that does not exist. -/
  | unknownLayout (error : UnknownName)
  /-- The text is no TOML document. -/
  | malformed
  /-- A key or a type that does not belong there. -/
  | unexpected (message : String)
deriving DecidableEq, Repr

def ConfigError.message : ConfigError → String
  | unknownLayout e => e.message
  | malformed => "Invalid configuration file: no TOML document"
  | unexpected message => "Invalid configuration file: " ++ message

/-- The options that a file gives; layouts by name. -/
structure ConfigFile where
  tableLayout : Option String := none
  externalMedia : Option Bool := none
  imageLayout : Option String := none
deriving DecidableEq, Repr

namespace ConfigFile

def keys : List String := ["table-layout", "external-media", "image-layout"]

/-- A double with a point in it, or one of the special ones by name. -/
def floatText (x : Float) : String :=
  if x.isNaN then "NaN"
  else if x.isInf then if 0 < x then "inf" else "-inf"
  else
    let text := Decimal.text x
    if text.toList.contains '.' then text else text ++ ".0"

/-- What a value is, as a message about its type says it. -/
def describe : Toml.Value → String
  | .string s => "string " ++ Text.quoted s
  | .integer z => s!"integer `{z}`"
  | .float x => s!"floating point `{floatText x}`"
  | .boolean b => s!"boolean `{b}`"
  | .array _ | .tables _ => "sequence"
  | .datetime | .inlineTable _ | .table _ _ _ => "map"

def string (value : Toml.Value) : Except ConfigError String :=
  match value with
  | .string s => .ok s
  | other => .error (.unexpected s!"invalid type: {describe other}, expected a string")

def boolean (value : Toml.Value) : Except ConfigError Bool :=
  match value with
  | .boolean b => .ok b
  | other => .error (.unexpected s!"invalid type: {describe other}, expected a boolean")

/-- Takes in one entry of the document. -/
def add (file : ConfigFile) (key : String) (value : Toml.Value) : Except ConfigError ConfigFile :=
  match key with
  | "table-layout" => do return { file with tableLayout := some (← string value) }
  | "external-media" => do return { file with externalMedia := some (← boolean value) }
  | "image-layout" => do return { file with imageLayout := some (← string value) }
  | other =>
    .error (.unexpected ("unknown field `" ++ other ++ "`, expected " ++ Named.oneOf keys))

def read (text : String) : Except ConfigError ConfigFile :=
  match Toml.read? text with
  | none => .error .malformed
  | some entries => entries.foldlM (fun file (key, value) => file.add key value) {}

end ConfigFile

namespace Config

/-- A layout by name, or the present one if none is given. -/
def layout {α : Type} (parse : String → Except UnknownName α) (present : α) (name : Option String) :
    Except ConfigError α :=
  match name with
  | none => .ok present
  | some text => (parse text).mapError .unknownLayout

/-- Lets the options of a file override those of a configuration. -/
def override (file : ConfigFile) (config : Config) : Except ConfigError Config := do
  let tableLayout ← layout TableLayout.parse config.tableLayout file.tableLayout
  let imageLayout ← layout MediaLayout.parse config.imageLayout file.imageLayout
  return { config with
    tableLayout, imageLayout, externalMedia := file.externalMedia.getD config.externalMedia }

/-- Lets the options of a TOML document override those of a configuration. -/
def merge (text : String) (config : Config) : Except ConfigError Config := do
  override (← ConfigFile.read text) config

/-- Lets the options of a TOML document override those of a configuration, if it is free of faults. -/
def mergeOrKeep (config : Config) (text : String) : Config :=
  match merge text config with
  | .ok merged => merged
  | .error _ => config

/-- Merges documents in turn and leaves out those with a fault. -/
def mergeEach (texts : List String) (config : Config) : Config :=
  texts.foldl mergeOrKeep config

/-- The defaults with the options of a TOML document. -/
def ofToml (text : String) : Except ConfigError Config := merge text {}

end Config

end Adf.Convert
