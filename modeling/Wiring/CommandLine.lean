import Wiring.Failure

/-! # Command lines

Switches say how much a command reports; all other tokens are files.
-/
namespace Wiring
set_option autoImplicit false

/-- In trace mode errors go to the caller, else they are printed. -/
inductive Verbosity where
  | quiet
  | normal
  | trace
  deriving DecidableEq, Inhabited

structure CommandLine where
  files : List String := []
  verbosity : Verbosity := .normal
  deriving DecidableEq, Inhabited

namespace CommandLine

def switch? (token : String) : Option Verbosity :=
  if token = "-q" ∨ token = "--quiet" then some .quiet
  else if token = "-v" ∨ token = "--verbose" then some .trace
  else none

/-- Reads tokens on top of those read so far; `--` makes files of all that follow it. -/
def readOnto (line : CommandLine) : List String → Except Failure CommandLine
  | [] => .ok line
  | token :: rest =>
    if token.toList.head? ≠ some '-' then
      readOnto { line with files := line.files ++ [token] } rest
    else if token = "--" then .ok { line with files := line.files ++ rest }
    else
      match switch? token with
      | some verbosity => readOnto { line with verbosity } rest
      | none => .error (.invalidArgument "invalid argument" (.string token))

def read (tokens : List String) : Except Failure CommandLine := readOnto {} tokens

end CommandLine
end Wiring
