import Wiring.Proofs.Runtime.Traced

/-! # Histories of runs

A run is watched: what happens in it is noted, each event with the runtime at which it happens. The
history is there also where the fuel does not last. A run that is watched goes on as it does
unwatched (`plain_watch`).
-/
namespace Wiring
set_option autoImplicit false

inductive Event (P : Parts) where
  | asked
  /-- A shared instance is asked for by a name that stands for the class. -/
  | sought (className : String)
  | started (className : String)
  /-- The asking for a shared instance of the class succeeds. -/
  | answered (className : String) (held : Instance P)
  /-- The instance of a target becomes the shared one of its class. -/
  | seeded (held : Instance P)

structure Moment (P : Parts) (σ : Type) where
  event : Event P
  runtime : Runtime P σ

abbrev Watched (P : Parts) (σ α : Type) := Traced P σ (Moment P σ) α

namespace Watched

open Traced

variable {P : Parts} {σ α β : Type}

def note (event : Event P) : Watched P σ Unit := fun runtime =>
  (some ((), runtime), [⟨event, runtime⟩])

def plant (held : Instance P) : Watched P σ String := do
  quiet (Runtime.share held.className held)
  note (.seeded held)
  return held.className

def seed : Target P → Watched P σ String
  | .named name => pure name
  | .ready held => plant held
  | .fresh component => do
    let held ← quiet (Runtime.instantiate component)
    plant held

def refuse (_ : String) (failure : Failure) : Watched P σ (Except Failure (Instance P)) :=
  pure (.error failure)

/-- Starts the factory of a class, one level deeper. -/
def start (className : String) (factory : Watched P σ (Except Failure (Instance P))) :
    Watched P σ (Except Failure (Instance P)) := do
  quiet (modify Runtime.deeper)
  note (.started className)
  let made ← factory
  quiet (modify Runtime.shallower)
  return made

def asking (className : String) (act : Watched P σ (Except Failure (Instance P))) :
    Watched P σ (Except Failure (Instance P)) := do
  note (.sought className)
  let result ← act
  match result with
  | .ok held => note (.answered className held)
  | .error _ => pure ()
  return result

def engine (setup : Setup P σ) (inner : {α : Type} → Script P σ α → Watched P σ α) :
    Engine P σ (Watched P σ) where
  act := quiet
  inner := inner
  seed := seed
  construct := construct setup refuse start inner
  asking := asking

def asked (answer : (request : Request P σ) → Watched P σ request.Reply)
    (request : Request P σ) : Watched P σ request.Reply := do
  note .asked
  answer request

def answer (setup : Setup P σ) : (fuel : Nat) → (request : Request P σ) → Watched P σ request.Reply
  | 0, _ => quiet failure
  | fuel + 1, request =>
    (engine setup fun script => Engine.interpret (asked (answer setup fuel)) script).answer setup
      request

def watch (setup : Setup P σ) (fuel : Nat) (script : Script P σ α) : Watched P σ α :=
  Engine.interpret (asked (answer setup fuel)) script

theorem watch_ask (setup : Setup P σ) (fuel : Nat) (request : Request P σ)
    (next : request.Reply → Script P σ α) :
    watch setup fuel (.ask request next) = (do
      note .asked
      let reply ← answer setup fuel request
      watch setup fuel (next reply)) :=
  LawfulMonad.bind_assoc ..

theorem plain_seed (target : Target P) :
    (seed target : Watched P σ String).plain = Runtime.seed target := by
  cases target <;> rfl

theorem start_apply (className : String) (factory : Watched P σ (Except Failure (Instance P)))
    (runtime : Runtime P σ) :
    start className factory runtime =
      ((factory runtime.deeper).1.map fun pair => (pair.1, pair.2.shallower),
        ⟨.started className, runtime.deeper⟩ :: (factory runtime.deeper).2) := by
  let leave (made : Except Failure (Instance P)) : Watched P σ _ := do
    quiet (modify Runtime.shallower)
    return made
  show (((factory >>= leave) runtime.deeper).1,
    ⟨.started className, runtime.deeper⟩ :: ((factory >>= leave) runtime.deeper).2) = _
  rw [bind_apply]
  rcases factory runtime.deeper with ⟨_ | ⟨made, after⟩, moments⟩
  · rfl
  · exact congrArg (fun rest => (_, _ :: rest)) (List.append_nil moments)

theorem asking_apply (className : String) (act : Watched P σ (Except Failure (Instance P)))
    (runtime : Runtime P σ) :
    asking className act runtime =
      match act runtime with
      | (none, moments) => (none, ⟨.sought className, runtime⟩ :: moments)
      | (some (.ok held, after), moments) =>
        (some (.ok held, after),
          ⟨.sought className, runtime⟩ :: (moments ++ [⟨.answered className held, after⟩]))
      | (some (.error failure, after), moments) =>
        (some (.error failure, after), ⟨.sought className, runtime⟩ :: moments) := by
  let conclude (result : Except Failure (Instance P)) : Watched P σ _ := do
    match result with
    | .ok held => note (.answered className held)
    | .error _ => pure ()
    return result
  show (((act >>= conclude) runtime).1,
    ⟨.sought className, runtime⟩ :: ((act >>= conclude) runtime).2) = _
  rw [bind_apply]
  rcases act runtime with ⟨_ | ⟨failure | held, after⟩, moments⟩
  · rfl
  · exact congrArg (fun rest => (_, _ :: rest)) (List.append_nil moments)
  · rfl

theorem plain_asking (className : String) (act : Watched P σ (Except Failure (Instance P))) :
    (asking className act).plain = act.plain := by
  funext runtime
  show (asking className act runtime).1 = (act runtime).1
  rw [asking_apply]
  rcases act runtime with ⟨_ | ⟨failure | held, after⟩, moments⟩ <;> rfl

theorem plain_start (className : String) (factory : Watched P σ (Except Failure (Instance P)))
    (runtime : Runtime P σ) :
    (start className factory).plain.run runtime =
      (factory.plain.run runtime.deeper).map fun pair => (pair.1, pair.2.shallower) := by
  show (start className factory runtime).1 = _
  rw [start_apply]
  rfl

theorem plain_interpret {answer : (request : Request P σ) → Watched P σ request.Reply}
    {plainAnswer : (request : Request P σ) → Run P σ request.Reply}
    (h : ∀ request, (answer request).plain = plainAnswer request) (script : Script P σ α) :
    (Engine.interpret (asked answer) script).plain = Runtime.interpret plainAnswer script := by
  refine erasing.interpret (fun request => ?_) script
  exact h request

variable (setup : Setup P σ) (fuel : Nat)

theorem plain_answer (request : Request P σ) :
    (answer setup fuel request).plain = Runtime.answer setup fuel request := by
  induction fuel generalizing request with
  | zero => rfl
  | succ fuel ih =>
    have hScript {α : Type} (script : Script P σ α) :
        (Engine.interpret (asked (answer setup fuel)) script).plain =
          Runtime.perform setup fuel script := plain_interpret ih script
    have hFollows : erasing.Follows setup
        (engine setup fun script => Engine.interpret (asked (answer setup fuel)) script)
        (Runtime.perform setup fuel) :=
      { act := fun _ => rfl
        script := hScript
        seed := plain_seed
        construct := plain_construct (fun _ _ => rfl) plain_start hScript
        asking := fun className act plain hAct => (plain_asking className act).trans hAct }
    exact hFollows.answer request

theorem plain_watch (script : Script P σ α) :
    (watch setup fuel script).plain = Runtime.perform setup fuel script :=
  plain_interpret (plain_answer setup fuel) script

end Watched

def Runtime.history {P : Parts} {σ α : Type} (setup : Setup P σ) (fuel : Nat)
    (script : Script P σ α) (runtime : Runtime P σ) : List (Moment P σ) :=
  (Watched.watch setup fuel script runtime).2

def Runtime.events {P : Parts} {σ α : Type} (setup : Setup P σ) (fuel : Nat)
    (script : Script P σ α) (runtime : Runtime P σ) : List (Event P) :=
  (history setup fuel script runtime).map (·.event)

end Wiring
