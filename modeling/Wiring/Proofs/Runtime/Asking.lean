import Wiring.Proofs.Runtime.Law

/-! # Asking for shared instances

A shared instance is found under the class that its name stands for, else under the short form of
the name, else made. Where one was shared while another was made, the shared one is answered. A law
on shared instances that these ways obey holds of every script (`Law.Asking.obeys_watch`).
-/
namespace Wiring
set_option autoImplicit false

variable {P : Parts} {σ α β : Type}

def Runtime.withShared (runtime : Runtime P σ) (className : String) (held : Instance P) :
    Runtime P σ :=
  { runtime with singletons := runtime.singletons.set className held }

theorem Runtime.get?_withShared (runtime : Runtime P σ) (className other : String)
    (held : Instance P) : (runtime.withShared className held).singletons.get? other =
      if className = other then some held else runtime.singletons.get? other :=
  runtime.singletons.get?_set className other held

theorem Runtime.forall_withShared {motive : String → Instance P → Prop} {runtime : Runtime P σ}
    {className : String} {held : Instance P}
    (h : ∀ other found, runtime.singletons.get? other = some found → motive other found)
    (hHeld : motive className held) (other : String) (found : Instance P)
    (hFound : (runtime.withShared className held).singletons.get? other = some found) :
    motive other found := by
  rw [get?_withShared] at hFound
  split at hFound
  · rename_i hSame
    cases hFound
    exact hSame ▸ hHeld
  · exact h other found hFound

namespace Watched

open Traced

section Asking

variable {runtime after : Runtime P σ} {moments : List (Moment P σ)}
variable {className : String} {held made : Instance P}
variable {setup : Setup P σ} {inner : {α : Type} → Script P σ α → Watched P σ α}
variable {name suffix short : String}

theorem run_shared? (className : String) (runtime : Runtime P σ) :
    ((engine setup inner).sure (Runtime.shared? className)).run runtime =
      (some (.ok (runtime.singletons.get? className), runtime), []) := rfl

theorem run_liftM (short : String) (runtime : Runtime P σ) :
    (liftM (.ok short : Except Failure String) : ExceptT Failure (Watched P σ) String).run runtime =
      (some (.ok short, runtime), []) := rfl

theorem share_of_shared (h : runtime.singletons.get? className = some held) :
    ((engine setup inner).share name suffix className).run runtime =
      (some (.ok held, runtime), []) := by
  rw [Engine.share, bindTrial_of_ok (run_shared? className runtime), h]
  rfl

theorem share_of_shorten_error {failure : Failure}
    (hNone : runtime.singletons.get? className = none)
    (hShort : Name.shorten name suffix = .error failure) :
    ((engine setup inner).share name suffix className).run runtime =
      (some (.error failure, runtime), []) := by
  rw [Engine.share, bindTrial_of_ok (run_shared? className runtime), hNone, hShort]
  rfl

theorem share_of_shared_short (hNone : runtime.singletons.get? className = none)
    (hShort : Name.shorten name suffix = .ok short)
    (h : runtime.singletons.get? short = some held) :
    ((engine setup inner).share name suffix className).run runtime =
      (some (.ok held, runtime), []) := by
  rw [Engine.share, bindTrial_of_ok (run_shared? className runtime), hNone, hShort]
  dsimp only
  rw [bindTrial_of_ok (run_liftM short runtime), bindTrial_of_ok (run_shared? short runtime), h]
  rfl

/-- Shares what was made of a class, unless one was shared meanwhile. -/
def keep (setup : Setup P σ) (inner : {α : Type} → Script P σ α → Watched P σ α)
    (className : String) (made : Instance P) : ExceptT Failure (Watched P σ) (Instance P) := do
  if let some held ← (engine setup inner).sure (Runtime.shared? className) then return held
  (engine setup inner).sure (Runtime.share className made)
  return made

theorem keep_of_shared (h : after.singletons.get? className = some held) :
    (keep setup inner className made).run after = (some (.ok held, after), []) := by
  rw [keep, bindTrial_of_ok (run_shared? className after), h]
  rfl

theorem keep_of_not_shared (h : after.singletons.get? className = none) :
    (keep setup inner className made).run after =
      (some (.ok made, after.withShared className made), []) := by
  rw [keep, bindTrial_of_ok (run_shared? className after), h]
  rfl

theorem share_of_not_shared (hNone : runtime.singletons.get? className = none)
    (hShort : Name.shorten name suffix = .ok short)
    (hShortNone : runtime.singletons.get? short = none) :
    ((engine setup inner).share name suffix className).run runtime =
      ((engine setup inner).make className [] >>= keep setup inner className).run runtime := by
  rw [Engine.share, bindTrial_of_ok (run_shared? className runtime), hNone, hShort]
  dsimp only
  rw [bindTrial_of_ok (run_liftM short runtime), bindTrial_of_ok (run_shared? short runtime),
    hShortNone]
  rfl

variable (runtime className setup inner name suffix) in
/-- The ways in which an instance of a class is sought: what comes of them and what is noted. -/
inductive Seeking : Option (Except Failure (Instance P) × Runtime P σ) → List (Moment P σ) → Prop
  | shared (held : Instance P) : runtime.singletons.get? className = some held →
    Seeking (some (.ok held, runtime))
      [⟨.sought className, runtime⟩, ⟨.answered className held, runtime⟩]
  | unnamed (failure : Failure) : runtime.singletons.get? className = none →
    Name.shorten name suffix = .error failure →
    Seeking (some (.error failure, runtime)) [⟨.sought className, runtime⟩]
  | sharedShort (short : String) (held : Instance P) :
    runtime.singletons.get? className = none → Name.shorten name suffix = .ok short →
    runtime.singletons.get? short = some held →
    Seeking (some (.ok held, runtime))
      [⟨.sought className, runtime⟩, ⟨.answered className held, runtime⟩]
  | unanswered (moments : List (Moment P σ)) : runtime.singletons.get? className = none →
    construct setup refuse start inner className [] runtime = (none, moments) →
    Seeking none (⟨.sought className, runtime⟩ :: moments)
  | failed (failure : Failure) (after : Runtime P σ) (moments : List (Moment P σ)) :
    runtime.singletons.get? className = none →
    construct setup refuse start inner className [] runtime =
      (some (.error failure, after), moments) →
    Seeking (some (.error failure, after)) (⟨.sought className, runtime⟩ :: moments)
  | sharedMeanwhile (short : String) (made held : Instance P) (after : Runtime P σ)
      (moments : List (Moment P σ)) :
    runtime.singletons.get? className = none → Name.shorten name suffix = .ok short →
    runtime.singletons.get? short = none →
    construct setup refuse start inner className [] runtime = (some (.ok made, after), moments) →
    after.singletons.get? className = some held →
    Seeking (some (.ok held, after))
      (⟨.sought className, runtime⟩ :: (moments ++ [⟨.answered className held, after⟩]))
  | made (short : String) (made : Instance P) (after : Runtime P σ) (moments : List (Moment P σ)) :
    runtime.singletons.get? className = none → Name.shorten name suffix = .ok short →
    runtime.singletons.get? short = none →
    construct setup refuse start inner className [] runtime = (some (.ok made, after), moments) →
    after.singletons.get? className = none →
    Seeking (some (.ok made, after.withShared className made))
      (⟨.sought className, runtime⟩ ::
        (moments ++ [⟨.answered className made, after.withShared className made⟩]))

theorem seeking_asking {result : Option (Except Failure (Instance P) × Runtime P σ)}
    (h : asking className ((engine setup inner).share name suffix className).run runtime =
      (result, moments)) :
    Seeking runtime className setup inner name suffix result moments := by
  rw [asking_apply] at h
  cases hShared : runtime.singletons.get? className with
  | some held =>
    rw [share_of_shared hShared] at h
    cases h
    exact .shared held hShared
  | none =>
    cases hShort : Name.shorten name suffix with
    | error failure =>
      rw [share_of_shorten_error hShared hShort] at h
      cases h
      exact .unnamed failure hShared hShort
    | ok short =>
      cases hSharedShort : runtime.singletons.get? short with
      | some held =>
        rw [share_of_shared_short hShared hShort hSharedShort] at h
        cases h
        exact .sharedShort short held hShared hShort hSharedShort
      | none =>
        rw [share_of_not_shared hShared hShort hSharedShort] at h
        rcases hMade : ((engine setup inner).make className []).run runtime with
          ⟨_ | ⟨failure | made, after⟩, constructed⟩
        · rw [bindTrial_of_none hMade] at h
          cases h
          exact .unanswered constructed hShared hMade
        · rw [bindTrial_of_error hMade] at h
          cases h
          exact .failed failure after constructed hShared hMade
        · rw [bindTrial_of_ok hMade] at h
          cases hMeanwhile : after.singletons.get? className with
          | some held =>
            rw [keep_of_shared hMeanwhile, List.append_nil] at h
            cases h
            exact .sharedMeanwhile short made held after constructed hShared hShort hSharedShort
              hMade hMeanwhile
          | none =>
            rw [keep_of_not_shared hMeanwhile, List.append_nil] at h
            cases h
            exact .made short made after constructed hShared hShort hSharedShort hMade hMeanwhile

variable (setup inner name suffix runtime) in
theorem run_resolve :
    ∃ between, ((engine setup inner).resolve setup name suffix).run runtime =
        (some (Runtime.resolution setup runtime.active name suffix, between), []) ∧
      between.active = runtime.active ∧ between.singletons = runtime.singletons := by
  obtain ⟨between, hRun, hBetween⟩ := Runtime.run_resolve setup name suffix runtime
  refine ⟨between, congrArg (·, []) hRun, ?_⟩
  rcases hBetween with rfl | rfl <;> exact ⟨rfl, rfl⟩

theorem asking_of_obtain
    (h : ((engine setup inner).obtain setup name suffix).run runtime =
      (some (.ok held, after), moments)) :
    ∃ className between, Runtime.resolution setup runtime.active name suffix = .ok className ∧
      between.singletons = runtime.singletons ∧
      asking className ((engine setup inner).share name suffix className).run between =
        (some (.ok held, after), moments) := by
  obtain ⟨between, hResolve, _, hSingletons⟩ := run_resolve runtime setup inner name suffix
  rw [Engine.obtain] at h
  cases hFound : Runtime.resolution setup runtime.active name suffix with
  | error failure =>
    rw [bindTrial_of_error (hFound ▸ hResolve)] at h
    cases h
  | ok className =>
    rw [bindTrial_of_ok (hFound ▸ hResolve)] at h
    exact ⟨className, between, rfl, hSingletons, h⟩

end Asking

end Watched

namespace Law

open Traced Watched

/-- What the ways of asking for an instance of a class obey, in a runtime whose active context lets
a name stand for the class. -/
structure Asking (law : Law P σ) (setup : Setup P σ)
    (inner : {α : Type} → Script P σ α → Watched P σ α) : Prop where
  shared {runtime : Runtime P σ} {className : String} {held : Instance P} :
    runtime.singletons.get? className = some held →
      law.rel runtime [⟨.sought className, runtime⟩, ⟨.answered className held, runtime⟩]
        (some runtime)
  sharedShort {runtime : Runtime P σ} {name suffix className short : String} {held : Instance P} :
    Runtime.resolution setup runtime.active name suffix = .ok className →
    runtime.singletons.get? className = none → Name.shorten name suffix = .ok short →
    runtime.singletons.get? short = some held →
      law.rel runtime [⟨.sought className, runtime⟩, ⟨.answered className held, runtime⟩]
        (some runtime)
  missing {runtime : Runtime P σ} {className : String} :
    runtime.singletons.get? className = none →
      law.rel runtime [⟨.sought className, runtime⟩] (some runtime)
  sharedMeanwhile {runtime : Runtime P σ} {className : String} {held : Instance P} :
    runtime.singletons.get? className = some held →
      law.rel runtime [⟨.answered className held, runtime⟩] (some runtime)
  made {runtime after : Runtime P σ} {name suffix className : String} {made : Instance P}
      {moments : List (Moment P σ)} :
    Runtime.resolution setup runtime.active name suffix = .ok className →
    runtime.singletons.get? className = none →
    construct setup refuse start inner className [] runtime = (some (.ok made, after), moments) →
    law.rel runtime moments (some after) → after.singletons.get? className = none →
      law.rel runtime
        (⟨.sought className, runtime⟩ :: moments ++
          [⟨.answered className made, after.withShared className made⟩])
        (some (after.withShared className made))

variable {law : Law P σ} {setup : Setup P σ}
variable {inner : {α : Type} → Script P σ α → Watched P σ α}

theorem Asking.rel_asking (hAsking : law.Asking setup inner)
    (hConstruct : ∀ className, law.Obeys (construct setup refuse start inner className []))
    {runtime : Runtime P σ} {name suffix className : String}
    (hFound : Runtime.resolution setup runtime.active name suffix = .ok className) :
    let sought := asking className ((engine setup inner).share name suffix className).run runtime
    law.rel runtime sought.2 (sought.1.map (·.2)) := by
  have hRel := hConstruct className runtime
  dsimp only
  rcases hSought : asking className ((engine setup inner).share name suffix className).run runtime
    with ⟨result, moments⟩
  cases seeking_asking hSought with
  | shared held hShared => exact hAsking.shared hShared
  | unnamed failure hNone _ => exact hAsking.missing hNone
  | sharedShort short held hNone hShort hShared =>
    exact hAsking.sharedShort hFound hNone hShort hShared
  | unanswered moments hNone hRun =>
    rw [hRun] at hRel
    exact law.trans (hAsking.missing hNone) hRel
  | failed failure after moments hNone hRun =>
    rw [hRun] at hRel
    exact law.trans (hAsking.missing hNone) hRel
  | sharedMeanwhile short made held after moments hNone _ _ hRun hShared =>
    rw [hRun] at hRel
    exact law.trans (hAsking.missing hNone) (law.trans hRel (hAsking.sharedMeanwhile hShared))
  | made short made after moments hNone _ _ hRun hNoneAfter =>
    rw [hRun] at hRel
    exact hAsking.made hFound hNone hRun hRel hNoneAfter

theorem Asking.obeys_obtain (hAsking : law.Asking setup inner) (hSteps : law.Steps)
    (hConstruct : ∀ className, law.Obeys (construct setup refuse start inner className []))
    (name suffix : String) :
    law.Obeys ((engine setup inner).obtain setup name suffix).run := by
  intro runtime
  have hResolves : law.Obeys ((engine setup inner).resolve setup name suffix).run :=
    hSteps.quiet (Runtime.sparing_resolve setup name suffix)
  obtain ⟨between, hResolve, hActive, _⟩ := run_resolve runtime setup inner name suffix
  have hReached := hResolves runtime
  rw [hResolve] at hReached
  rw [Engine.obtain]
  cases hFound : Runtime.resolution setup runtime.active name suffix with
  | error failure =>
    rw [bindTrial_of_error (hFound ▸ hResolve)]
    exact hReached
  | ok className =>
    rw [bindTrial_of_ok (hFound ▸ hResolve)]
    exact law.trans hReached (hAsking.rel_asking hConstruct (hActive ▸ hFound))

/-- A law that holds wherever the shared instances are the same, of what plants one and of the
asking for one holds of every script. -/
theorem Asking.obeys_watch (hAsked : law.Obeys (note .asked))
    (hStarted : ∀ className, law.Obeys (note (.started className)))
    (hPlant : ∀ held, law.Obeys (plant held))
    (hQuiet : ∀ {β : Type} {act : Run P σ β}, Runtime.Keeping act → law.Obeys (quiet act))
    (hAsking : ∀ fuel, law.Asking setup (watch setup fuel)) (fuel : Nat) (script : Script P σ α) :
    law.Obeys (watch setup fuel script) := by
  have hKeeping {β : Type} {value : Runtime P σ → β} {change : Runtime P σ → Runtime P σ}
      (hChange : ∀ runtime, (change runtime).singletons = runtime.singletons) :
      law.Obeys (quiet fun runtime => some (value runtime, change runtime)) :=
    hQuiet (Runtime.ensures_of_run (fun _ => rfl) hChange)
  have hSteps : law.Steps :=
    { asked := hAsked
      started := hStarted
      deeper := hKeeping fun _ => rfl
      shallower := hKeeping fun _ => rfl
      quiet := fun hSparing => hQuiet hSparing.keeping
      plant := hPlant }
  refine Law.obeys_watch hSteps (fun _ => hKeeping fun _ => rfl) (hKeeping fun _ => rfl) ?_ fuel
    script
  intro fuel hWatch name suffix
  refine (hAsking fuel).obeys_obtain hSteps (fun className => ?_) name suffix
  exact obeys_construct hSteps (fun args _ => hWatch _) className []

end Law
end Wiring
