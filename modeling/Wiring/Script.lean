import Wiring.Component
import Wiring.Context
import Wiring.Line

/-! # Scripts

A script is what a factory or a program does: it asks the runtime one thing after the other, and
each reply decides how it goes on. What is outside the runtime is a state of type `σ`.
-/
namespace Wiring
set_option autoImplicit false

/-- What a script can ask for. -/
inductive Request (P : Parts) (σ : Type) where
  | current
  | stackSize
  | push (context : Context)
  | pop
  | resolve (name suffix : String)
  | create (name : String) (args : List Value)
  | get (name suffix : String)
  | instantiate (component : Component P)
  | register (name : String) (target : Option (Target P))
  | setConfig (key : String) (value : Value)
  | setConfigAll (settings : Value)
  | config (key : String)
  | run (launch : Launch P) (args : List String)
  | command (launch : Launch P) (args : List String)
  | write (sink : P.Sink) (text : String)
  | invoke (runner : P.Runner) (args : List String)
  | world (change : σ → σ)

/-- What each request is answered with. The world is answered as it was before the change. -/
def Request.Reply {P : Parts} {σ : Type} : Request P σ → Type
  | current => Context
  | stackSize => Nat
  | push _ => Unit
  | pop => Option Context
  | resolve _ _ => Except Failure String
  | create _ _ => Except Failure (Instance P)
  | get _ _ => Except Failure (Instance P)
  | instantiate _ => Instance P
  | register _ _ => Unit
  | setConfig _ _ => Unit
  | setConfigAll _ => Except Failure Unit
  | config _ => Option String
  | run _ _ => Except Failure Value
  | command _ _ => Except Failure Value
  | write _ _ => Except String Unit
  | invoke _ _ => Except Failure Unit
  | world _ => σ

inductive Script (P : Parts) (σ α : Type) where
  | done (result : α)
  | ask (request : Request P σ) (next : request.Reply → Script P σ α)

/-- A script that may fail. What it did before stays done. -/
abbrev Attempt (P : Parts) (σ α : Type) := ExceptT Failure (Script P σ) α

namespace Script

variable {P : Parts} {σ α β γ : Type}

instance [Inhabited α] : Inhabited (Script P σ α) := ⟨done default⟩

def bind : Script P σ α → (α → Script P σ β) → Script P σ β
  | done result, next => next result
  | ask request reply, next => ask request fun answer => (reply answer).bind next

instance : Monad (Script P σ) where
  pure := done
  bind := bind

theorem bind_done (script : Script P σ α) : script.bind done = script := by
  induction script with
  | done => rfl
  | ask request reply ih => exact congrArg _ (funext ih)

theorem bind_assoc (script : Script P σ α) (next : α → Script P σ β) (last : β → Script P σ γ) :
    (script.bind next).bind last = script.bind fun result => (next result).bind last := by
  induction script with
  | done => rfl
  | ask request reply ih => exact congrArg _ (funext ih)

instance : LawfulMonad (Script P σ) :=
  LawfulMonad.mk' _ bind_done (fun _ _ => rfl) bind_assoc

def perform (request : Request P σ) : Script P σ request.Reply := ask request done

def attempt (script : Script P σ (Except Failure α)) : Attempt P σ α := script

def sure (script : Script P σ α) : Attempt P σ α := ExceptT.lift script

/-- Does a script within a context of its own. -/
def enter (context : Context) (body : Script P σ α) : Script P σ α := do
  perform (.push context)
  let result ← body
  let _ ← perform .pop
  return result

def create (name : String) (args : List Value) : Attempt P σ (Instance P) :=
  attempt (perform (.create name args))

def get (name suffix : String) : Attempt P σ (Instance P) :=
  attempt (perform (.get name suffix))

def registerAll (entries : List (String × Option (Target P))) : Script P σ Unit :=
  entries.forM fun entry => perform (.register entry.1 entry.2)

def print (sink : P.Sink) (words : List Value) : Attempt P σ Unit := do
  let outcome : Except String Unit ← sure (perform (.write sink (Line.format words)))
  match outcome with
  | .ok () => return
  | .error cause => throw (.io "cannot write to \x7b1\x7d" Component.terminalClass cause)

def manage (runner : Option P.Runner) (args : List String) : Attempt P σ Unit :=
  match runner with
  | none => throw (.unavailable "package manager")
  | some runner => attempt (perform (.invoke runner args))

def terminal (name : String) : Attempt P σ P.Sink := do
  attempt (done (← get name "").asTerminal)

def packageManager (name : String) : Attempt P σ (Option P.Runner) := do
  attempt (done (← get name "").asPackageManager)

end Script

def terminalName : String := "paate"

def packageManagerName : String := "composer"

namespace Task

variable {P : Parts} {σ : Type}

def maintain (args : List String) : Attempt P σ Value := do
  Script.manage (← Script.packageManager packageManagerName) args
  return .null

/-- Without files the declared packages are installed, else the files are added. -/
def installArgs (files : List String) : List String :=
  if files.isEmpty then ["install"] else "require" :: files

def updateArgs (files : List String) : List String := "update" :: files

end Task
end Wiring
