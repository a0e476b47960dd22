import Wiring.Script

/-! # Setups

A setup is what a runtime is wired from: a catalog of factories, the meaning of its parts and a
limit on how deep construction nests. It never changes while the runtime runs.
-/
namespace Wiring
set_option autoImplicit false

abbrev Factory (P : Parts) (σ : Type) := List Value → Attempt P σ (Instance P)

/-- What a program does to its context before it runs, and how it runs. Which components it brings
may depend on the world it is started in. -/
structure Program (P : Parts) (σ : Type) where
  components : σ → List (String × Target P) := fun _ => []
  settings : Value := .null
  body : List String → Attempt P σ Value

abbrev Catalog (P : Parts) (σ : Type) := Table (Factory P σ)

structure Setup (P : Parts) (σ : Type) where
  catalog : Catalog P σ
  maxDepth : Nat := 100
  /-- Writes text that is not empty to a sink, unless the sink refuses it for a cause. -/
  write : P.Sink → String → σ → Except String Unit × σ
  /-- Passes on what a sink was written, unless the sink refuses for a cause. -/
  flush : P.Sink → σ → Except String Unit × σ := fun _ world => (.ok (), world)
  invoke : P.Runner → List String → σ → Except Failure Unit × σ
  program : P.Program → Program P σ

namespace Factory

variable {P : Parts} {σ : Type}

def constant (component : Component P) : Factory P σ := fun _ =>
  Script.sure (Script.perform (.instantiate component))

end Factory

namespace Catalog

variable {P : Parts} {σ : Type}

/-- The terminal, a package manager without a runner and the maintenance commands. -/
def builtin (sink : P.Sink) : Catalog P σ :=
  Table.ofList <| [.terminal sink, .packageManager none, .install, .update].map
    fun component : Component P => (component.className, Factory.constant component)

def names (catalog : Catalog P σ) : List String :=
  catalog.keys.mergeSort fun first second => decide (first ≤ second)

def diagnostic (catalog : Catalog P σ) : String :=
  "Catalog \x7b factories: " ++ Diagnostic.listed (catalog.names.map Diagnostic.quoted) ++ " \x7d"

end Catalog

namespace Setup

variable {P : Parts} {σ : Type}

/-- Writes text to a sink and flushes it. An empty text is not written, but the sink is flushed. -/
def put (setup : Setup P σ) (sink : P.Sink) (text : String) (world : σ) :
    Except String Unit × σ :=
  if text.isEmpty then setup.flush sink world
  else
    match setup.write sink text world with
    | (.ok (), written) => setup.flush sink written
    | (.error cause, left) => (.error cause, left)

def task (setup : Setup P σ) : Task P → Program P σ
  | .install => { body := fun files => Task.maintain (Task.installArgs files) }
  | .update => { body := fun files => Task.maintain (Task.updateArgs files) }
  | .program program => setup.program program

end Setup
end Wiring
