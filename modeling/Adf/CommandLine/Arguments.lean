import Adf.Vocabulary

/-!
# Arguments

The words of a command line. Options and flags may stand before and after the input, none of them twice. The
value of an option is the next word or is attached to the option; a word that begins with a hyphen is a value
only if it is nothing else. Behind `--` every word is an input.
-/

namespace Adf.CommandLine

structure Arguments where
  /-- The file to convert; standard input if there is none or if it is `-`. -/
  input : Option String := none
  output : Option String := none
  config : Option String := none
  tableLayout : Option TableLayout := none
  imageLayout : Option MediaLayout := none
  gfm : Bool := false
  externalMedia : Bool := false
  pretty : Bool := false
  validate : Bool := false
deriving DecidableEq, Repr

inductive Flag where
  | gfm
  | externalMedia
  | pretty
  | validate
deriving DecidableEq, Repr

instance : Named Flag where
  values := [.gfm, .externalMedia, .pretty, .validate]
  name
    | .gfm => "gfm"
    | .externalMedia => "external-media"
    | .pretty => "pretty"
    | .validate => "validate"

/-- An option, which has a value. -/
inductive Key where
  | output
  | config
  | tableLayout
  | imageLayout
deriving DecidableEq, Repr

instance : Named Key where
  values := [.output, .config, .tableLayout, .imageLayout]
  name
    | .output => "output"
    | .config => "config"
    | .tableLayout => "table-layout"
    | .imageLayout => "image-layout"

/-- An option or a flag as it is written. -/
def written {α : Type} [Named α] (a : α) : String := "--" ++ Named.name a

/-- The option that a single letter stands for. -/
def Key.ofLetter? : Char → Option Key
  | 'o' => some .output
  | 'c' => some .config
  | _ => none

/-- What a command line asks for. -/
inductive Request where
  | run (arguments : Arguments)
  | help
  | version
deriving DecidableEq, Repr

inductive UsageError where
  | unknown (word : String)
  | repeated (name : String)
  | missingValue (name : String)
  | unexpectedValue (name : String)
  | unknownLayout (name : String) (error : UnknownName)
deriving DecidableEq, Repr

def UsageError.message : UsageError → String
  | unknown word => "unexpected argument '" ++ word ++ "'"
  | repeated name => "'" ++ name ++ "' is given more than once"
  | missingValue name => "'" ++ name ++ "' needs a value"
  | unexpectedValue name => "'" ++ name ++ "' takes no value"
  | unknownLayout name e => "invalid value for '" ++ name ++ "': " ++ e.message

/-! ## Single words -/

/-- What a word is on its own. -/
inductive Word where
  | flag (flag : Flag)
  /-- An option, with its value if that is attached. -/
  | key (key : Key) (value : Option String)
  | input (text : String)
  /-- All words behind this one are inputs. -/
  | inputs
  | help
  | version
deriving DecidableEq, Repr

/-- A text split at its first equals sign. -/
def splitEquals (s : List Char) : String × Option String :=
  let name := s.takeWhile (· ≠ '=')
  (.ofList name, ((s.drop name.length).tail?).map .ofList)

/-- A word behind two hyphens. -/
def longWord (s : List Char) : Except UsageError Word :=
  match splitEquals s with
  | ("help", none) => .ok .help
  | ("version", none) => .ok .version
  | (name, value) =>
    match (Named.find? name : Option Flag), (Named.find? name : Option Key), value with
    | some flag, _, none => .ok (.flag flag)
    | some flag, _, some _ => .error (.unexpectedValue (written flag))
    | none, some key, _ => .ok (.key key value)
    | none, none, _ =>
      let text := "--" ++ name
      .error (if ["help", "version"].contains name then .unexpectedValue text else .unknown text)

/-- A word behind one hyphen. A value may follow its letter at once or behind an equals sign. -/
def shortWord (letter : Char) (rest : List Char) : Except UsageError Word :=
  match letter, Key.ofLetter? letter with
  | 'h', _ => .ok .help
  | 'V', _ => .ok .version
  | _, some key =>
    match rest with
    | [] => .ok (.key key none)
    | '=' :: value => .ok (.key key (some (.ofList value)))
    | value => .ok (.key key (some (.ofList value)))
  | _, none => .error (.unknown (.ofList ['-', letter]))

def word (text : String) : Except UsageError Word :=
  match text.toList with
  | ['-', '-'] => .ok .inputs
  | '-' :: '-' :: rest => longWord rest
  | '-' :: letter :: rest => shortWord letter rest
  | _ => .ok (.input text)

/-- Whether a word can be the value of the option before it. -/
def isValue (text : String) : Bool :=
  match text.toList with
  | '-' :: _ :: _ => false
  | _ => true

/-! ## Command lines -/

namespace Arguments

def setFlag (a : Arguments) (flag : Flag) : Except UsageError Arguments :=
  let (present, b) : Bool × Arguments := match flag with
    | .gfm => (a.gfm, { a with gfm := true })
    | .externalMedia => (a.externalMedia, { a with externalMedia := true })
    | .pretty => (a.pretty, { a with pretty := true })
    | .validate => (a.validate, { a with validate := true })
  if present then .error (.repeated (written flag)) else .ok b

/-- A value that is to be set for the first time. -/
def once {α : Type} (name : String) (present : Option α) (value : Except UsageError α) :
    Except UsageError (Option α) :=
  match present with
  | some _ => .error (.repeated name)
  | none => value.map some

/-- The name of a file, which is not empty. -/
def fileName (name text : String) : Except UsageError String :=
  if text.isEmpty then .error (.missingValue name) else .ok text

def setKey (a : Arguments) (key : Key) (text : String) : Except UsageError Arguments := do
  let name := written key
  match key with
  | .output => return { a with output := ← once name a.output (fileName name text) }
  | .config => return { a with config := ← once name a.config (fileName name text) }
  | .tableLayout =>
    let layout := (TableLayout.parse text).mapError (UsageError.unknownLayout name)
    return { a with tableLayout := ← once name a.tableLayout layout }
  | .imageLayout =>
    let layout := (MediaLayout.parse text).mapError (UsageError.unknownLayout name)
    return { a with imageLayout := ← once name a.imageLayout layout }

def setInput (a : Arguments) (text : String) : Except UsageError Arguments :=
  match a.input with
  | some _ => .error (.unknown text)
  | none => do return { a with input := ← fileName "INPUT" text }

/-- Reads words from left to right. The first mistake ends it, and so does a question for help or for the
version. -/
def parseFrom (a : Arguments) : List String → Except UsageError Request
  | [] => .ok (.run a)
  | text :: rest => do
    match ← word text with
    | .help => return .help
    | .version => return .version
    | .flag flag => parseFrom (← a.setFlag flag) rest
    | .key key (some value) => parseFrom (← a.setKey key value) rest
    | .key key none =>
      match rest with
      | [] => throw (.missingValue (written key))
      | value :: rest =>
        if isValue value then parseFrom (← a.setKey key value) rest
        else throw (.missingValue (written key))
    | .input text => parseFrom (← a.setInput text) rest
    | .inputs => return .run (← rest.foldlM setInput a)

end Arguments

def parse : List String → Except UsageError Request := Arguments.parseFrom {}

end Adf.CommandLine
