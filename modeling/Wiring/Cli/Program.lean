import Wiring.Cli.Help
import Wiring.Folder
import Wiring.Runtime

/-! # The program

A run of the program is settled by its arguments, the files it can read and the package manager's
command, if there is one.
-/
namespace Wiring.Cli
set_option autoImplicit false

def parts : Parts := { Sink := Unit, Runner := Unit, Program := Empty }

/-- The text written so far, and the arguments of each call of the command, latest first. -/
structure Console where
  text : String := ""
  calls : List (List String) := []
  deriving DecidableEq

structure Surroundings where
  read : String → FileText
  manager : Option UInt8 := none
  /-- What the command shows when it is called with arguments. -/
  shown : List String → String := fun _ => ""

structure Outcome where
  code : Nat
  stdout : String := ""
  stderr : String := ""
  calls : List (List String) := []
  deriving DecidableEq

def exitText (code : UInt8) : String := "exit status: " ++ toString code

/-- The command is called and ends with its exit code. One that is missing counts as called. -/
def callManager (surroundings : Surroundings) (args : List String) (console : Console) :
    Except Failure Unit × Console :=
  let console := { console with calls := args :: console.calls }
  match surroundings.manager with
  | none => (.error (.io "cannot run \x7b1\x7d" packageManagerName Folder.notFound), console)
  | some code =>
    let console := { console with text := console.text ++ surroundings.shown args }
    if code = 0 then (.ok (), console)
    else (.error (.io "\x7b1\x7d failed" packageManagerName (exitText code)), console)

def setup (surroundings : Surroundings) : Setup parts Console where
  catalog := .builtin ()
  write _ text console := (.ok (), { console with text := console.text ++ text })
  invoke _ := callManager surroundings
  program := Empty.elim

/-- A runtime whose root context holds the settings of a file and whose package manager runs the
command. -/
def start (surroundings : Surroundings) (settings : Option String) :
    Except Failure (Runtime parts Console) := do
  let context ← match settings with
    | some path => ({} : Context).loadFile path (surroundings.read path)
    | none => .ok {}
  let manager : Instance parts := ⟨0, .packageManager (some ())⟩
  let context := context.register packageManagerName manager.className
  return { singletons := Table.ofList [(manager.className, manager)]
           stack := [context]
           made := 1
           world := {} }

/-- Maintenance commands nest fewer scripts than this. -/
def nesting : Nat := 16

def report (failure : Failure) (code : Nat) (stdout : String) : Outcome :=
  { code, stdout, stderr := failure.display ++ "\n" }

def showName (name suffix : String) (short : Bool) : Outcome :=
  match if short then Name.shorten name suffix else Name.canonicalize name suffix with
  | .ok text => { code := 0, stdout := text ++ "\n" }
  | .error failure => report failure 1 ""

def showSetting (context : Context) (key : String) : Outcome :=
  match context.config? key with
  | some text => { code := 0, stdout := text ++ "\n" }
  | none => { code := 1, stderr := "✗ " ++ key ++ " is not set\n" }

def maintain (surroundings : Surroundings) (runtime : Runtime parts Console) (name : String)
    (args : List String) : Outcome :=
  let script : Script parts Console (Except Failure Value) :=
    Script.perform (.command (.named name) args)
  match (Runtime.perform (setup surroundings) nesting script).run runtime with
  | none => { code := 1 }
  | some (.ok value, runtime) =>
    let shown := if value.isNull then "" else value.display ++ "\n"
    { code := 0, stdout := runtime.world.text ++ shown, calls := runtime.world.calls.reverse }
  | some (.error failure, runtime) =>
    { report failure 1 runtime.world.text with calls := runtime.world.calls.reverse }

/-- Runs the program. Wrong arguments and settings that cannot be loaded end it with code 2. -/
def run (surroundings : Surroundings) (args : List String) : Outcome :=
  match Arguments.read? args with
  | none => { code := 2, stderr := Topic.program.usage ++ "\n" }
  | some ⟨settings, command⟩ =>
    let started (go : Runtime parts Console → Outcome) : Outcome :=
      match start surroundings settings with
      | .ok runtime => go runtime
      | .error failure => report failure 2 ""
    match command with
    | .help topic => { code := 0, stdout := topic.text }
    | .version => { code := 0, stdout := versionText }
    | .name name suffix short => showName name suffix short
    | .config key => started fun runtime => showSetting (runtime.stack.head?.getD {}) key
    | .maintenance name args => started fun runtime =>
      maintain surroundings runtime name args

end Wiring.Cli
