import Wiring.CommandLine
import Wiring.Name
import Wiring.Setup

/-! # The runtime

A runtime shares instances, keeps a stack of contexts and constructs components from the catalog. A
script that runs within it may nest further scripts: those of the factories and programs it asks
for. How deep they nest is bounded by a fuel; without enough of it there is no answer at all.
-/
namespace Wiring
set_option autoImplicit false

structure Runtime (P : Parts) (σ : Type) where
  singletons : Table (Instance P) := {}
  /-- The contexts, the active one first. -/
  stack : List Context := []
  /-- How many factories are at work. -/
  depth : Nat := 0
  made : Nat := 0
  world : σ

abbrev Run (P : Parts) (σ : Type) := StateT (Runtime P σ) Option

/-- What may fail. A failure leaves the runtime as it is by then. -/
abbrev Trial (P : Parts) (σ α : Type) := ExceptT Failure (Run P σ) α

namespace Runtime

variable {P : Parts} {σ α β : Type}

def sure (act : Run P σ α) : Trial P σ α := ExceptT.lift act

def settle (act : Run P σ (Except Failure α)) : Trial P σ α := act

def outcome (act : Trial P σ α) : Trial P σ (Except Failure α) := sure act.run

/-- The active context. An empty stack gets an empty one first. -/
def current : Run P σ Context := do
  let runtime ← get
  match runtime.stack with
  | context :: _ => return context
  | [] =>
    set { runtime with stack := [{}] }
    return {}

def setCurrent (context : Context) : Run P σ Unit :=
  modify fun runtime => { runtime with stack := context :: runtime.stack.tail }

def changeCurrent (change : Context → Context) : Run P σ Unit := do
  setCurrent (change (← current))

def push (context : Context) : Run P σ Unit :=
  modify fun runtime => { runtime with stack := context :: runtime.stack }

def pop : Run P σ (Option Context) :=
  modifyGet fun runtime => (runtime.stack.head?, { runtime with stack := runtime.stack.tail })

def enter (context : Context) (body : Run P σ α) : Run P σ α := do
  push context
  let result ← body
  let _ ← pop
  return result

def setConfigAll (settings : Value) : Trial P σ Unit := do
  let context ← (← sure current).setConfigAll settings
  sure (setCurrent context)

def instantiate (component : Component P) : Run P σ (Instance P) :=
  modifyGet fun runtime => (⟨runtime.made, component⟩, { runtime with made := runtime.made + 1 })

def share (className : String) (held : Instance P) : Run P σ Unit :=
  modify fun runtime => { runtime with singletons := runtime.singletons.set className held }

def shared? (className : String) : Run P σ (Option (Instance P)) := do
  return (← get).singletons.get? className

/-- The class name of a target, whose instance becomes the shared one of its class. -/
def seed : Target P → Run P σ String
  | .named name => return name
  | .ready held => do
    share held.className held
    return held.className
  | .fresh component => do
    let held ← instantiate component
    share held.className held
    return held.className

def register (name : String) (target : Option (Target P)) : Run P σ Unit := do
  match target with
  | some target =>
    let className ← seed target
    changeCurrent (·.register name className)
  | none => changeCurrent (·.unregister name)

section Nested

variable (setup : Setup P σ) (inner : {α : Type} → Script P σ α → Run P σ α)

/-- The class name that a name stands for in the active context: what is registered for its
canonical form, else for its short form, else the name itself if it is in the catalog, else its
canonical form. -/
def resolve (name suffix : String) : Trial P σ String := do
  let long ← Name.canonicalize name suffix
  if let some className := (← sure current).registration? long then return className
  let short ← Name.shorten name suffix
  if let some className := (← sure current).registration? short then return className
  return if setup.catalog.contains name then name else long

/-- Runs the factory of a class, unless as many as allowed are at work already. -/
def construct (className : String) (args : List Value) : Trial P σ (Instance P) := do
  if setup.maxDepth ≤ (← get).depth then throw (.recursionLimit className setup.maxDepth)
  match setup.catalog.get? className with
  | none => throw (.unknownComponent className)
  | some factory =>
    sure (modify fun runtime => { runtime with depth := runtime.depth + 1 })
    let made ← outcome (settle (inner (factory args).run))
    sure (modify fun runtime => { runtime with depth := runtime.depth - 1 })
    settle (pure made)

def create (name : String) (args : List Value) : Trial P σ (Instance P) := do
  construct setup inner (← resolve setup name "") args

/-- The shared instance of a name, made on first use. One that was shared meanwhile wins. -/
def obtain (name suffix : String) : Trial P σ (Instance P) := do
  let className ← resolve setup name suffix
  if let some held ← sure (shared? className) then return held
  let short ← Name.shorten name suffix
  if let some held ← sure (shared? short) then return held
  let made ← construct setup inner className []
  if let some held ← sure (shared? className) then return held
  sure (share className made)
  return made

/-- Runs a task in a context of its own, which starts as a copy of the active one. -/
def execute (task : Task P) (args : List String) : Trial P σ Value := do
  let program := setup.task task
  let context ← sure current
  let components := program.components (← get).world
  let context ← sure (components.foldlM
    (fun context entry => return context.register entry.1 (← seed entry.2)) context)
  let context ← context.setConfigAll program.settings
  settle (enter context (inner (program.body args).run))

/-- What a fresh instance of a name runs. -/
def createTask (name : String) : Trial P σ (Task P) := do
  let held ← create setup inner name []
  match held.task? with
  | some task => return task
  | none => throw held.notATask

def programSuffix : String := "Sovellus"

def commandSuffix : String := "Komento"

/-- Runs a program. A name takes a suffix unless the catalog knows it as it is. -/
def run (launch : Launch P) (args : List String) : Trial P σ Value := do
  let task ← match launch with
    | .ready task => pure task
    | .named name =>
      let className ← if setup.catalog.contains name then pure name
        else Name.canonicalize name programSuffix
      createTask setup inner className
  execute setup inner task args

def report (message : String) : Trial P σ Unit := do
  match ← outcome (obtain setup inner terminalName "") with
  | .ok held =>
    match held.asTerminal with
    | .ok sink => settle (inner (Script.print sink [.string message]).run)
    | .error _ => return
  | .error _ => return

/-- Runs a command, whose failure is shown unless the command line asks for a trace. -/
def command (launch : Launch P) (args : List String) : Trial P σ Value := do
  let task ← match launch with
    | .ready task => pure task
    | .named name => createTask setup inner (← Name.canonicalize name commandSuffix)
  let line ← CommandLine.read args
  match ← outcome (execute setup inner task line.files) with
  | .ok value => return value
  | .error failure =>
    if line.verbosity = .trace then throw failure
    report setup inner failure.message
    return .null

end Nested

def interpret (answer : (request : Request P σ) → Run P σ request.Reply) :
    Script P σ α → Run P σ α
  | .done result => pure result
  | .ask request next => do
    let reply ← answer request
    interpret answer (next reply)

theorem interpret_bind (answer : (request : Request P σ) → Run P σ request.Reply)
    (script : Script P σ α) (next : α → Script P σ β) :
    interpret answer (script.bind next) =
      interpret answer script >>= fun result => interpret answer (next result) := by
  induction script with
  | done => simp [Script.bind, interpret]
  | ask request reply ih => simp [Script.bind, interpret, ih]

/-- Answers a request; scripts nest at most `fuel` deep. -/
def answer (setup : Setup P σ) : (fuel : Nat) → (request : Request P σ) → Run P σ request.Reply
  | 0, _ => failure
  | fuel + 1, request =>
    let inner {α : Type} (script : Script P σ α) : Run P σ α := interpret (answer setup fuel) script
    match request with
    | .current => current
    | .stackSize => return (← get).stack.length
    | .push context => push context
    | .pop => pop
    | .resolve name suffix => (resolve setup name suffix).run
    | .create name args => (create setup inner name args).run
    | .get name suffix => (obtain setup inner name suffix).run
    | .instantiate component => instantiate component
    | .register name target => register name target
    | .setConfig key value => changeCurrent (·.setConfig key value)
    | .setConfigAll settings => (setConfigAll settings).run
    | .config key => return (← current).config? key
    | .run launch args => (run setup inner launch args).run
    | .command launch args => (command setup inner launch args).run
    | .write sink text => outside (setup.put sink text)
    | .invoke runner args => outside (setup.invoke runner args)
    | .world change => outside fun world => (world, change world)
where
  outside {α : Type} (act : σ → α × σ) : Run P σ α :=
    modifyGet fun runtime =>
      let (result, world) := act runtime.world
      (result, { runtime with world })

def perform (setup : Setup P σ) (fuel : Nat) (script : Script P σ α) : Run P σ α :=
  interpret (answer setup fuel) script

end Runtime
end Wiring
