import Wiring.Proofs.Runtime.History

/-! # Laws of runs

A law relates the runtime before a run, its history and the runtime after it, and is kept when one
run follows another. The operations of a runtime are put together from few steps. What these obey,
each operation obeys, and so does every script (`Law.obeys_watch`).
-/
namespace Wiring
set_option autoImplicit false

variable {P : Parts} {σ α β : Type}

/-- A law holds of a run that does nothing and of one run after another. There is no runtime after
a run whose fuel does not last. -/
structure Law (P : Parts) (σ : Type) where
  rel : Runtime P σ → List (Moment P σ) → Option (Runtime P σ) → Prop
  refl (runtime : Runtime P σ) : rel runtime [] (some runtime)
  trans {before between : Runtime P σ} {after : Option (Runtime P σ)}
    {first second : List (Moment P σ)} :
    rel before first (some between) → rel between second after → rel before (first ++ second) after

namespace Law

open Traced Watched

def Obeys (law : Law P σ) (act : Watched P σ α) : Prop :=
  ∀ runtime, law.rel runtime (act runtime).2 ((act runtime).1.map (·.2))

variable {law : Law P σ}

theorem obeys_pure (value : α) : law.Obeys (pure value) := law.refl

theorem obeys_quiet {act : Run P σ α} (hNone : ∀ runtime, law.rel runtime [] none)
    (hSome : ∀ runtime value after, act.run runtime = some (value, after) →
      law.rel runtime [] (some after)) : law.Obeys (quiet act) := by
  intro runtime
  show law.rel runtime [] ((act.run runtime).map (·.2))
  cases hRun : act.run runtime with
  | none => exact hNone runtime
  | some pair => exact hSome runtime pair.1 pair.2 hRun

theorem obeys_bind {first : Watched P σ α} {next : α → Watched P σ β} (hFirst : law.Obeys first)
    (hNext : ∀ value, law.Obeys (next value)) : law.Obeys (first >>= next) := by
  intro runtime
  have hRel := hFirst runtime
  rw [bind_apply]
  split
  · rename_i moments hRun
    rwa [hRun] at hRel
  · rename_i value between moments hRun
    rw [hRun] at hRel
    exact law.trans hRel (hNext value between)

/-- What obeys a law, next to any run. -/
def simulation (law : Law P σ) : Simulation P σ (Watched P σ) where
  rel act _ := law.Obeys act
  done := obeys_pure
  step := obeys_bind

/-- The steps that no operation is needed for obey a law. -/
structure Steps (law : Law P σ) : Prop where
  asked : law.Obeys (note .asked)
  started (className : String) : law.Obeys (note (.started className))
  deeper : law.Obeys (quiet (modify Runtime.deeper))
  shallower : law.Obeys (quiet (modify Runtime.shallower))
  quiet {α : Type} {act : Run P σ α} : Runtime.Sparing act → law.Obeys (quiet act)
  plant (held : Instance P) : law.Obeys (plant held)

theorem Steps.seed (hSteps : law.Steps) (target : Target P) : law.Obeys (seed target) := by
  cases target with
  | named name => exact obeys_pure name
  | ready held => exact hSteps.plant held
  | fresh component =>
    have hMake : Runtime.Sparing (Runtime.instantiate component : Run P σ (Instance P)) :=
      Runtime.ensures_of_run (fun _ => rfl) fun _ => ⟨rfl, rfl, .inl rfl⟩
    exact obeys_bind (hSteps.quiet hMake) hSteps.plant

theorem obeys_interpret (hAsked : law.Obeys (note .asked))
    {answer : (request : Request P σ) → Watched P σ request.Reply}
    (hAnswer : ∀ request, law.Obeys (answer request)) (script : Script P σ α) :
    law.Obeys (Engine.interpret (asked answer) script) := by
  induction script with
  | done result => exact obeys_pure result
  | ask request next ih => exact obeys_bind (obeys_bind hAsked fun _ => hAnswer request) ih

section Engines

variable {setup : Setup P σ} {inner : {α : Type} → Script P σ α → Watched P σ α}

theorem obeys_construct (hSteps : law.Steps)
    (hFactory : ∀ {className : String} {factory : Factory P σ} (args : List Value),
      setup.catalog.get? className = some factory → law.Obeys (inner (factory args).run))
    (className : String) (args : List Value) :
    law.Obeys (construct setup refuse start inner className args) := by
  intro runtime
  rw [construct]
  split
  · exact law.refl runtime
  · cases hFound : setup.catalog.get? className with
    | none => exact law.refl runtime
    | some factory =>
      have hStart : law.Obeys (start className (inner (factory args).run)) :=
        obeys_bind hSteps.deeper fun _ => obeys_bind (hSteps.started className) fun _ =>
          obeys_bind (hFactory args hFound) fun made =>
            obeys_bind hSteps.shallower fun _ => obeys_pure made
      exact hStart runtime

theorem obeys_enter {context : Context} {body : Watched P σ α}
    (hPush : law.Obeys (quiet (Runtime.push context))) (hBody : law.Obeys body)
    (hPop : law.Obeys (quiet Runtime.pop)) :
    law.Obeys ((engine setup inner).enter context body) :=
  obeys_bind hPush fun _ => obeys_bind hBody fun _ => obeys_bind hPop fun _ => obeys_pure _

end Engines

/-- A law that holds of the steps, of pushing and popping contexts and of the asking for shared
instances holds of every script. -/
theorem obeys_watch {setup : Setup P σ} (hSteps : law.Steps)
    (hPush : ∀ context, law.Obeys (quiet (Runtime.push context)))
    (hPop : law.Obeys (quiet Runtime.pop))
    (hObtain : ∀ fuel : Nat,
      (∀ {β : Type} (script : Script P σ β), law.Obeys (watch setup fuel script)) →
        ∀ name suffix, law.Obeys ((engine setup (watch setup fuel)).obtain setup name suffix).run)
    (fuel : Nat) (script : Script P σ α) : law.Obeys (watch setup fuel script) := by
  suffices ∀ {β : Type} (script : Script P σ β), law.Obeys (watch setup fuel script) from
    this script
  induction fuel with
  | zero => exact obeys_interpret hSteps.asked fun _ => hSteps.quiet nofun
  | succ fuel ih =>
    have hCarries : law.simulation.Carries setup (engine setup (watch setup fuel))
        (Runtime.perform setup fuel) :=
      { act := hSteps.quiet
        seed := hSteps.seed
        construct := obeys_construct hSteps fun _ _ => ih _
        obtain := hObtain fuel ih
        enter := fun context _ _ => obeys_enter (hPush context) (ih _) hPop
        print := fun _ _ => ih _ }
    intro β script
    refine obeys_interpret hSteps.asked (fun request => ?_) script
    exact hCarries.answer request (fun context _ => hPush context) fun _ => hPop

end Law
end Wiring
