import Wiring.Cli.Program
import Wiring.Folder

/-! # Entry point

Reads the settings file that the arguments name and shows what comes of the run. No external command
is run from here, so that the package manager's counts as missing.
-/
namespace Wiring.Cli
set_option autoImplicit false

def readFile (path : String) : IO FileText := do
  try
    let data ← IO.FS.readBinFile path
    return (String.fromUTF8? data).elim (.error Folder.notText) .ok
  catch
    | .noFileOrDirectory .. => return .error Folder.notFound
    | .inappropriateType .. => return .error Folder.isADirectory
    | other => return .error other.toString

end Wiring.Cli

open Wiring.Cli in
def main (args : List String) : IO UInt32 := do
  let file ← match (Arguments.read? args).bind (·.settings) with
    | some path => readFile path
    | none => pure (.error Wiring.Folder.notFound)
  let outcome := run { read := fun _ => file } args
  (← IO.getStdout).putStr outcome.stdout
  (← IO.getStderr).putStr outcome.stderr
  return outcome.code.toUInt32
