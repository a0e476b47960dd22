import Wiring.Failure
import Wiring.Value.Diagnostic

/-! # Components

A component has a canonical class name and may be a terminal, a package manager or something to run.
Two instances of one component are told apart by their number.
-/
namespace Wiring
set_option autoImplicit false

/-- What components are made of besides the library's own parts: sinks for text, runners of
external commands, and programs. -/
structure Parts where
  Sink : Type
  Runner : Type
  Program : Type

inductive Task (P : Parts) where
  | install
  | update
  | program (program : P.Program)

inductive Component.Kind (P : Parts) where
  | plain
  | terminal (sink : P.Sink)
  | packageManager (runner : Option P.Runner)
  | task (task : Task P)

structure Component (P : Parts) where
  className : String
  kind : Component.Kind P := .plain

structure Instance (P : Parts) where
  number : Nat
  component : Component P

/-- What a registration entry points at. A component becomes a new instance each time. -/
inductive Target (P : Parts) where
  | named (className : String)
  | ready (held : Instance P)
  | fresh (component : Component P)

/-- What to run: something of a name, or something ready. -/
inductive Launch (P : Parts) where
  | named (name : String)
  | ready (task : Task P)

namespace Component

variable {P : Parts}

def terminalClass : String := "Savoksi\\Paate"

def packageManagerClass : String := "Savoksi\\Composer"

def installClass : String := "Savoksi\\AsennaKomento"

def updateClass : String := "Savoksi\\PaivitaKomento"

def terminal (sink : P.Sink) : Component P := ⟨terminalClass, .terminal sink⟩

/-- Without a runner, a package manager fails whatever it is asked. -/
def packageManager (runner : Option P.Runner) : Component P :=
  ⟨packageManagerClass, .packageManager runner⟩

def install : Component P := ⟨installClass, .task .install⟩

def update : Component P := ⟨updateClass, .task .update⟩

end Component

namespace Instance

variable {P : Parts}

def className (held : Instance P) : String := held.component.className

def same (left right : Instance P) : Bool := left.number == right.number

def unexpectedType (held : Instance P) : Failure :=
  .invalidArgument "component \x7b1\x7d has an unexpected type" (.string held.className)

def notATask (held : Instance P) : Failure :=
  .invalidArgument "component \x7b1\x7d cannot be run" (.string held.className)

def asPlain (held : Instance P) : Except Failure Unit :=
  match held.component.kind with
  | .plain => .ok ()
  | _ => .error held.unexpectedType

def asTerminal (held : Instance P) : Except Failure P.Sink :=
  match held.component.kind with
  | .terminal sink => .ok sink
  | _ => .error held.unexpectedType

def asPackageManager (held : Instance P) : Except Failure (Option P.Runner) :=
  match held.component.kind with
  | .packageManager runner => .ok runner
  | _ => .error held.unexpectedType

def asInstall (held : Instance P) : Except Failure Unit :=
  match held.component.kind with
  | .task .install => .ok ()
  | _ => .error held.unexpectedType

def asUpdate (held : Instance P) : Except Failure Unit :=
  match held.component.kind with
  | .task .update => .ok ()
  | _ => .error held.unexpectedType

def task? (held : Instance P) : Option (Task P) :=
  match held.component.kind with
  | .task task => some task
  | _ => none

end Instance

def Target.diagnostic {P : Parts} : Target P → String
  | named name => Diagnostic.tagged "Class" (Diagnostic.quoted name)
  | ready held => Diagnostic.tagged "Instance" (Diagnostic.quoted held.className)
  | fresh component => Diagnostic.tagged "Instance" (Diagnostic.quoted component.className)

def Instance.diagnostic {P : Parts} (held : Instance P) : String :=
  Diagnostic.tagged "Component" (Diagnostic.quoted held.className)

end Wiring
