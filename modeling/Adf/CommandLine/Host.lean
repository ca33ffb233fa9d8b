/-!
# Files

What the program needs of the system that it runs on, and a directory in memory that offers it.
-/

namespace Adf.CommandLine

/-- Why a file cannot be read or written. -/
inductive FileError where
  | notFound
  | isDirectory
  | notDirectory
  /-- What was read is no UTF-8. -/
  | notText
  | other (message : String)
deriving DecidableEq, Repr

def FileError.message : FileError → String
  | notFound => "No such file or directory (os error 2)"
  | isDirectory => "Is a directory (os error 21)"
  | notDirectory => "Not a directory (os error 20)"
  | notText => "stream did not contain valid UTF-8"
  | other message => message

/-- Access to files by name. -/
structure Host (m : Type → Type) where
  readFile : String → m (Except FileError ByteArray)
  readInput : m (Except FileError ByteArray)
  writeFile : String → String → m (Except FileError Unit)

/-- Bytes as text. -/
def decode (bytes : Except FileError ByteArray) : Except FileError String := do
  match String.fromUTF8? (← bytes) with
  | some text => return text
  | none => throw .notText

/-! ## A directory in memory -/

/-- A directory that holds files, and what stands in standard input. -/
structure Directory where
  files : List (String × ByteArray)
  input : ByteArray

namespace Directory

/-- Where a path leads. -/
inductive Place where
  /-- A directory: this one or one around it. -/
  | directory
  | file (name : String)
  /-- What the path says to be a directory in this one, by a slash at its end. -/
  | inner (name : String)
  | nowhere (error : FileError)
deriving DecidableEq, Repr

/-- The error for a path that goes on behind a name. -/
def beyond (name : String) (d : Directory) : FileError :=
  if (d.files.lookup name).isSome then .notDirectory else .notFound

/-- The place of a path. There are no directories in this one, and no files around it. -/
def place (path : String) (d : Directory) : Place :=
  let around (rest : List String) : Place :=
    if rest.all String.isEmpty then .directory else .nowhere .notFound
  match path.splitOn "/" with
  | "" :: rest => around rest
  | parts =>
    match parts.dropWhile fun part => part = "." || part = "" with
    | [] => .directory
    | ".." :: rest => around rest
    | [name] => .file name
    | name :: rest => if rest.all String.isEmpty then .inner name else .nowhere (d.beyond name)

def readFile (path : String) (d : Directory) : Except FileError ByteArray :=
  match d.place path with
  | .directory => .error .isDirectory
  | .nowhere e => .error e
  | .inner name => .error (d.beyond name)
  | .file name =>
    match d.files.lookup name with
    | some content => .ok content
    | none => .error .notFound

/-- The files with one of them written anew or added at the end. -/
def put (name : String) (content : ByteArray) : List (String × ByteArray) → List (String × ByteArray)
  | [] => [(name, content)]
  | (other, old) :: rest =>
    if other = name then (name, content) :: rest else (other, old) :: put name content rest

def writeFile (path : String) (text : String) (d : Directory) : Except FileError Directory :=
  match d.place path with
  | .directory | .inner _ => .error .isDirectory
  | .nowhere e => .error e
  | .file name => .ok { d with files := put name text.toUTF8 d.files }

def host : Host (StateM Directory) where
  readFile path := do return (← get).readFile path
  readInput := do return .ok (← get).input
  writeFile path text := do
    match (← get).writeFile path text with
    | .ok d => set d; return .ok ()
    | .error e => return .error e

end Directory

end Adf.CommandLine
