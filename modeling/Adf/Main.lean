import Adf.CommandLine.Run

/-!
# The program

Runs on the files of the system.
-/

namespace Adf.CommandLine

/-- A directory in the place of a file and a file in the place of a directory are told apart by number. -/
def FileError.ofSystem : IO.Error → FileError
  | .noFileOrDirectory _ _ _ => .notFound
  | .inappropriateType _ code _ => if code = 21 then .isDirectory else .notDirectory
  | e => .other (toString e)

def system : Host IO where
  readFile path := do
    try return .ok (← IO.FS.readBinFile path)
    catch e => return .error (.ofSystem e)
  readInput := do
    try return .ok (← (← IO.getStdin).readBinToEnd)
    catch e => return .error (.ofSystem e)
  writeFile path text := do
    try return .ok (← IO.FS.writeFile path text)
    catch e => return .error (.ofSystem e)

end Adf.CommandLine

def main (arguments : List String) : IO UInt32 := do
  let outcome ← Adf.CommandLine.run Adf.CommandLine.system arguments
  IO.print outcome.stdout
  IO.eprint outcome.stderr
  return outcome.exitCode
