import Wiring.Proofs.Runtime.Calls

/-! # What a request constructs

The trace of a request shows the class that it constructs first, be it that the factory is called or
that the construction is refused. For a creation this is the class that the name resolves to, for a
command by name the one that its canonical form resolves to, and for a shared instance the former
again unless one is there already.
-/
namespace Wiring
set_option autoImplicit false

variable {P : Parts} {σ α β : Type}

def CallEvent.className? : CallEvent → Option String
  | acted => none
  | called className => some className
  | returned className => some className
  | refused className _ => some className

/-- The class that is constructed first in a trace, or refused to be. -/
def constructed? (moments : List (CallMoment P σ)) : Option String :=
  moments.findSome? (·.event.className?)

namespace Calling

open Traced

theorem constructed?_append_of_some {first : List (CallMoment P σ)} {className : String}
    (h : constructed? first = some className) (second : List (CallMoment P σ)) :
    constructed? (first ++ second) = some className := by
  rw [constructed?, List.findSome?_append, ← constructed?, h]
  rfl

theorem constructed?_append_of_none {first : List (CallMoment P σ)}
    (h : constructed? first = none) (second : List (CallMoment P σ)) :
    constructed? (first ++ second) = constructed? second := by
  rw [constructed?, List.findSome?_append, ← constructed?, h]
  rfl

theorem constructed?_bind_of_some {first : ExceptT Failure (Calling P σ) α} {runtime : Runtime P σ}
    {className : String} (h : constructed? (first.run runtime).2 = some className)
    (next : α → ExceptT Failure (Calling P σ) β) :
    constructed? ((first >>= next).run runtime).2 = some className := by
  show constructed? ((first.run >>= ExceptT.bindCont next) runtime).2 = _
  rw [bind_apply]
  rcases hFirst : first.run runtime with ⟨_ | ⟨result, after⟩, moments⟩
  · rwa [hFirst] at h
  · rw [hFirst] at h
    exact constructed?_append_of_some h _

theorem constructed?_bind_of_ok {first : ExceptT Failure (Calling P σ) α}
    {runtime after : Runtime P σ} {value : α} {moments : List (CallMoment P σ)}
    (h : first.run runtime = (some (.ok value, after), moments))
    (hActs : constructed? moments = none)
    (next : α → ExceptT Failure (Calling P σ) β) :
    constructed? ((first >>= next).run runtime).2 = constructed? ((next value).run after).2 := by
  rw [bindTrial_of_ok h]
  exact constructed?_append_of_none hActs _

theorem noting_acted {act : Run P σ α} {runtime after : Runtime P σ} {value : α}
    (h : act.run runtime = some (value, after)) :
    noting .acted act runtime = (some (value, after), [⟨.acted, after⟩]) := by
  rw [noting, h]

theorem liftM_apply {outcome : Except Failure α} {value : α} (h : outcome = .ok value)
    (runtime : Runtime P σ) :
    (liftM outcome : ExceptT Failure (Calling P σ) α).run runtime =
      (some (.ok value, runtime), []) := by
  rw [h]
  rfl

section Requests

variable (setup : Setup P σ) (inner : {α : Type} → Script P σ α → Calling P σ α)

theorem constructed?_construct (className : String) (args : List Value) (runtime : Runtime P σ) :
    constructed? (construct setup refuse call inner className args runtime).2 = some className := by
  rw [construct]
  split
  · rfl
  · cases setup.catalog.get? className with
    | none => rfl
    | some factory =>
      dsimp only
      rw [call_apply]
      rcases inner (factory args).run runtime.deeper with ⟨_ | ⟨made, after⟩, moments⟩ <;> rfl

variable {setup} {runtime : Runtime P σ} {name suffix className : String}

theorem resolve_apply (h : Runtime.resolution setup runtime.active name suffix = .ok className) :
    ∃ after, ((engine setup inner).resolve setup name suffix).run runtime =
        (some (.ok className, after), [⟨.acted, after⟩]) ∧
      after.singletons = runtime.singletons := by
  obtain ⟨after, hRun, hAfter⟩ := Runtime.run_resolve setup name suffix runtime
  rw [h] at hRun
  refine ⟨after, noting_acted hRun, ?_⟩
  rcases hAfter with rfl | rfl <;> rfl

theorem shared?_apply (className : String) (runtime : Runtime P σ) :
    ((engine setup inner).sure (Runtime.shared? className)).run runtime =
      (some (.ok (runtime.singletons.get? className), runtime), [⟨.acted, runtime⟩]) := rfl

theorem constructed?_create
    (h : Runtime.resolution setup runtime.active name "" = .ok className) (args : List Value) :
    constructed? (((engine setup inner).create setup name args).run runtime).2 =
      some className := by
  obtain ⟨after, hResolve, _⟩ := resolve_apply inner h
  refine (constructed?_bind_of_ok hResolve rfl _).trans ?_
  exact constructed?_construct setup inner className args after

theorem constructed?_obtain {short : String}
    (h : Runtime.resolution setup runtime.active name suffix = .ok className)
    (hShort : Name.shorten name suffix = .ok short)
    (hNone : runtime.singletons.get? className = none)
    (hShortNone : runtime.singletons.get? short = none) :
    constructed? (((engine setup inner).obtain setup name suffix).run runtime).2 =
      some className := by
  obtain ⟨after, hResolve, hSame⟩ := resolve_apply inner h
  rw [← hSame] at hNone hShortNone
  refine (constructed?_bind_of_ok hResolve rfl _).trans ?_
  refine (constructed?_bind_of_ok (shared?_apply inner className after) rfl _).trans ?_
  rw [hNone]
  refine (constructed?_bind_of_ok (liftM_apply hShort after) rfl _).trans ?_
  refine (constructed?_bind_of_ok (shared?_apply inner short after) rfl _).trans ?_
  rw [hShortNone]
  have hMake : constructed? (((engine setup inner).make className []).run after).2 =
      some className := constructed?_construct setup inner className [] after
  exact constructed?_bind_of_some hMake _

theorem constructed?_command {long : String}
    (hLong : Name.canonicalize name Runtime.commandSuffix = .ok long)
    (h : Runtime.resolution setup runtime.active long "" = .ok className) (args : List String) :
    constructed? (((engine setup inner).command setup (.named name) args).run runtime).2 =
      some className := by
  refine (constructed?_bind_of_ok (liftM_apply hLong runtime) rfl _).trans ?_
  have hTask : constructed? (((engine setup inner).createTask setup long).run runtime).2 =
      some className := constructed?_bind_of_some (constructed?_create inner h []) _
  exact constructed?_bind_of_some hTask _

end Requests

end Calling
end Wiring
