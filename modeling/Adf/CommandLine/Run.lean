import Adf.CommandLine.Arguments
import Adf.CommandLine.Host
import Adf.Convert.ConfigFile
import Adf.Convert.Converter
import Adf.Schema.Check

/-!
# A run of the program

Converts a Markdown file, or standard input, to a document. The options of a configuration file go before the
defaults, and those of the command line before both. A run fails at the first of these: its arguments, the
configuration file, the input, the conversion, the output, the validation of what was written.
-/

namespace Adf.CommandLine

open Adf.Convert (Config ConfigError Converter RenderError)

/-! ## Failures -/

inductive Failure where
  | usage (error : UsageError)
  | unreadableConfig (path : String) (cause : FileError)
  | invalidConfig (path : String) (cause : ConfigError)
  | unreadableFile (path : String) (cause : FileError)
  | unreadableInput (cause : FileError)
  | unfinished (cause : RenderError)
  | unwritable (path : String) (cause : FileError)
  | invalidDocument (issues : List Schema.Issue)
deriving Repr

def usage : String := "Usage: md2adf [OPTIONS] [INPUT]\n"

/-- What went wrong, and why. -/
def report (what : String) (cause : Option String) : String :=
  "Error: " ++ what ++ "\n" ++ (cause.elim "" fun text => "\nCaused by:\n    " ++ text ++ "\n")

namespace Failure

/-- What is written to standard error. -/
def text : Failure → String
  | usage e => "error: " ++ e.message ++ "\n\n" ++ CommandLine.usage
  | unreadableConfig path cause => report ("Failed to read config file " ++ path) cause.message
  | invalidConfig path cause => report ("Invalid config file " ++ path) cause.message
  | unreadableFile path cause => report ("Failed to read " ++ path) cause.message
  | unreadableInput cause => report "Failed to read from stdin" cause.message
  | unfinished cause => report "Failed to convert document" cause.message
  | unwritable path cause => report ("Failed to write " ++ path) cause.message
  | invalidDocument issues =>
    String.join (issues.map fun issue => issue.text ++ "\n") ++
      report s!"Generated document is not valid ADF ({issues.length} errors)" none

def exitCode : Failure → UInt32
  | usage _ => 2
  | _ => 1

end Failure

/-- What a run leaves behind, besides the files that it has written. -/
structure Outcome where
  stdout : String := ""
  failure : Option Failure := none
deriving Repr

def Outcome.stderr (o : Outcome) : String := o.failure.elim "" Failure.text

def Outcome.exitCode (o : Outcome) : UInt32 := o.failure.elim 0 Failure.exitCode

/-! ## Configuration -/

/-- Lets the options of the command line override those of a configuration. -/
def Arguments.override (a : Arguments) (config : Config) : Config :=
  { config with
    tableLayout := a.tableLayout.getD config.tableLayout
    imageLayout := a.imageLayout.getD config.imageLayout
    externalMedia := a.externalMedia || config.externalMedia }

/-- The configuration of a run, given how the files are read. -/
def Arguments.configuration (a : Arguments) (read : String → Except FileError ByteArray) :
    Except Failure Config := do
  match a.config with
  | none => return a.override {}
  | some path =>
    let text ← (decode (read path)).mapError (Failure.unreadableConfig path)
    let config ← (Config.merge text {}).mapError (Failure.invalidConfig path)
    return a.override config

def Arguments.converter (a : Arguments) (config : Config) : Converter :=
  if a.gfm then .gfm config else .commonMark config

def Arguments.style (a : Arguments) : Json.Style := if a.pretty then .pretty else .compact

/-! ## Runs -/

variable {m : Type → Type} [Monad m]

/-- Reads the file to convert. -/
def Arguments.readSource (a : Arguments) (host : Host m) : m (Except Failure String) := do
  match a.input with
  | none | some "-" => return (decode (← host.readInput)).mapError Failure.unreadableInput
  | some path => return (decode (← host.readFile path)).mapError (Failure.unreadableFile path)

/-- Validates a text that has been written. -/
def Arguments.check (a : Arguments) (text : String) : Option Failure :=
  let issues := if a.validate then Schema.validateText text else []
  if issues.isEmpty then none else some (.invalidDocument issues)

/-- Writes a text and validates it. -/
def Arguments.write (a : Arguments) (host : Host m) (text : String) : m Outcome := do
  match a.output with
  | none => return ⟨text ++ "\n", a.check text⟩
  | some path =>
    match ← host.writeFile path (text ++ "\n") with
    | .ok () => return ⟨"", a.check text⟩
    | .error e => return ⟨"", some (.unwritable path e)⟩

/-- The configuration file as it is read on a host; nothing else is read for it. -/
def Arguments.readConfiguration (a : Arguments) (host : Host m) : m (Except Failure Config) := do
  match a.config with
  | none => return a.configuration fun _ => .error .notFound
  | some path =>
    let bytes ← host.readFile path
    return a.configuration fun _ => bytes

def Arguments.run (a : Arguments) (host : Host m) : m Outcome := do
  let failed (failure : Failure) : m Outcome := return ⟨"", some failure⟩
  match ← a.readConfiguration host with
  | .error e => failed e
  | .ok config =>
    match ← a.readSource host with
    | .error e => failed e
    | .ok markdown =>
      match (a.converter config).convert a.style markdown with
      | .error e => failed (.unfinished e)
      | .ok text => a.write host text

def version : String := "md2adf 0.1.0\n"

def help : String :=
  "Convert Markdown to Atlassian Document Format (ADF) JSON\n\n" ++ usage ++ "
Arguments:
  [INPUT]  Markdown file to convert (reads stdin when absent or \"-\")

Options:
  -o, --output <OUTPUT>        Write the JSON to this file instead of stdout
      --gfm                    Enable GitHub Flavored Markdown extensions (tables, strikethrough,
                               autolinks, task lists, superscript)
      --external-media         Render images as external media nodes instead of links
      --table-layout <LAYOUT>  Table layout: default, center, wide or full-width
      --image-layout <LAYOUT>  Layout of external media: center, wide, full-width, wrap-left,
                               wrap-right, align-start or align-end
  -c, --config <FILE>          Read converter options from a TOML file. Command-line flags take
                               precedence over the file
      --pretty                 Indent the JSON output
      --validate               Validate the generated document and fail if it is not valid ADF
  -h, --help                   Print help
  -V, --version                Print version
"

/-- Runs the program with the given arguments. -/
def run (host : Host m) (arguments : List String) : m Outcome := do
  match parse arguments with
  | .error e => return ⟨"", some (.usage e)⟩
  | .ok .help => return ⟨help, none⟩
  | .ok .version => return ⟨version, none⟩
  | .ok (.run a) => a.run host

end Adf.CommandLine
