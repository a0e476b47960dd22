import Wiring.Runtime

/-! # The active context

What may fail is run step by step: a step that succeeds hands on its value and the runtime that it
leaves, one that fails ends the run. Reading the active context changes the runtime only by giving
an empty stack its first context; a registration changes the active context and none below it. A
construction comes to what the factory makes one level deeper.
-/
namespace Wiring
set_option autoImplicit false

variable {P : Parts} {σ α β : Type}

def Target.className : Target P → String
  | named name => name
  | ready held => held.className
  | fresh component => component.className

theorem Context.registration?_register (context : Context) (name target other : String) :
    (context.register name target).registration? other =
      if name = other then some target else context.registration? other :=
  context.registrations.get?_set name other target

namespace Runtime

theorem run_bind_of_ok {first : Trial P σ α} {runtime after : Runtime P σ} {value : α}
    (h : first.run.run runtime = some (.ok value, after)) (next : α → Trial P σ β) :
    (first >>= next).run.run runtime = (next value).run.run after := by
  rw [ExceptT.run_bind, StateT.run_bind, h]
  rfl

theorem run_bind_of_error {first : Trial P σ α} {runtime after : Runtime P σ} {failure : Failure}
    (h : first.run.run runtime = some (.error failure, after)) (next : α → Trial P σ β) :
    (first >>= next).run.run runtime = some (.error failure, after) := by
  rw [ExceptT.run_bind, StateT.run_bind, h]
  rfl

theorem run_liftM (outcome : Except Failure α) (runtime : Runtime P σ) :
    (liftM outcome : Trial P σ α).run.run runtime = some (outcome, runtime) := rfl

theorem run_sure {act : Run P σ α} {runtime after : Runtime P σ} {value : α}
    (h : act.run runtime = some (value, after)) :
    (sure act).run.run runtime = some (.ok value, after) := by
  rw [sure, ExceptT.run_lift, StateT.run_map, h]
  rfl

theorem run_bind_outcome (first : Trial P σ α) (next : Except Failure α → Trial P σ β)
    (runtime : Runtime P σ) :
    (outcome first >>= next).run.run runtime =
      (first.run.run runtime).bind fun pair => (next pair.1).run.run pair.2 := by
  cases hFirst : first.run.run runtime with
  | none =>
    rw [ExceptT.run_bind, StateT.run_bind, outcome, sure, ExceptT.run_lift, StateT.run_map, hFirst]
    rfl
  | some pair => exact run_bind_of_ok (run_sure hFirst) next

theorem run_bind_pure (first : Trial P σ α) (value : β) (runtime : Runtime P σ) :
    (first >>= fun _ => pure value).run.run runtime =
      (first.run.run runtime).map fun pair => (pair.1.map fun _ => value, pair.2) := by
  rw [ExceptT.run_bind, StateT.run_bind]
  rcases first.run.run runtime with _ | ⟨_ | _, after⟩ <;> rfl

/-- The context on top of the stack, the empty one if there is none. -/
def active (runtime : Runtime P σ) : Context := runtime.stack.headD {}

def withActive (runtime : Runtime P σ) (context : Context) : Runtime P σ :=
  { runtime with stack := context :: runtime.stack.tail }

theorem run_current (runtime : Runtime P σ) :
    current.run runtime = some (runtime.active, runtime.withActive runtime.active) := by
  obtain ⟨singletons, stack, depth, made, world⟩ := runtime
  cases stack <;> rfl

theorem run_changeCurrent (change : Context → Context) (runtime : Runtime P σ) :
    (changeCurrent change).run runtime =
      some ((), runtime.withActive (change runtime.active)) := by
  rw [changeCurrent, StateT.run_bind, run_current]
  rfl

theorem run_seed (target : Target P) (runtime : Runtime P σ) :
    ∃ after, (seed target).run runtime = some (target.className, after) ∧
      after.stack = runtime.stack := by
  cases target with
  | named name => exact ⟨runtime, rfl, rfl⟩
  | ready held => exact ⟨_, rfl, rfl⟩
  | fresh component => exact ⟨_, rfl, rfl⟩

theorem run_register (name : String) (target : Target P) (runtime : Runtime P σ) :
    ∃ after, (register name (some target)).run runtime = some ((), after) ∧
      after.stack = runtime.active.register name target.className :: runtime.stack.tail := by
  obtain ⟨seeded, hSeed, hStack⟩ := run_seed target runtime
  refine ⟨seeded.withActive (seeded.active.register name target.className), ?_, ?_⟩
  · simp only [register, StateT.run_bind, hSeed, Option.bind_eq_bind, Option.bind_some]
    exact run_changeCurrent _ seeded
  · simp only [withActive, active, hStack]

section Construct

variable {setup : Setup P σ} {inner : {α : Type} → Script P σ α → Run P σ α}
variable {className : String} {args : List Value} {runtime : Runtime P σ}

def deeper (runtime : Runtime P σ) : Runtime P σ := { runtime with depth := runtime.depth + 1 }

def shallower (runtime : Runtime P σ) : Runtime P σ := { runtime with depth := runtime.depth - 1 }

theorem run_construct_of_full (h : setup.maxDepth ≤ runtime.depth) :
    (construct setup inner className args).run.run runtime =
      some (.error (.recursionLimit className setup.maxDepth), runtime) := by
  have hGet : (get : Trial P σ (Runtime P σ)).run.run runtime = some (.ok runtime, runtime) := rfl
  rw [construct, run_bind_of_ok hGet]
  dsimp only
  rw [if_pos h]
  rfl

theorem run_construct_of_unknown (h : ¬ setup.maxDepth ≤ runtime.depth)
    (hUnknown : setup.catalog.get? className = none) :
    (construct setup inner className args).run.run runtime =
      some (.error (.unknownComponent className), runtime) := by
  have hGet : (get : Trial P σ (Runtime P σ)).run.run runtime = some (.ok runtime, runtime) := rfl
  rw [construct, run_bind_of_ok hGet]
  dsimp only
  rw [if_neg h, hUnknown]
  rfl

theorem run_construct_of_factory (h : ¬ setup.maxDepth ≤ runtime.depth) {factory : Factory P σ}
    (hFactory : setup.catalog.get? className = some factory) :
    (construct setup inner className args).run.run runtime =
      ((inner (factory args).run).run runtime.deeper).map fun pair =>
        (pair.1, pair.2.shallower) := by
  have hGet : (get : Trial P σ (Runtime P σ)).run.run runtime = some (.ok runtime, runtime) := rfl
  rw [construct, run_bind_of_ok hGet]
  dsimp only
  rw [if_neg h, hFactory]
  dsimp only
  rw [run_bind_of_ok (run_sure rfl), outcome, sure, settle, ExceptT.run_bind, StateT.run_bind,
    ExceptT.run_lift, StateT.run_map]
  show Option.bind (Option.map _ ((inner (factory args).run).run runtime.deeper)) _ = _
  cases (inner (factory args).run).run runtime.deeper <;> rfl

end Construct

end Runtime
end Wiring
