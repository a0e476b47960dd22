import Wiring.Proofs.Runtime.Asking

/-! # Shared instances by their class names

Where each factory makes instances of the class that it is catalogued under, an instance is shared
under its own class name, in every runtime that comes about. So asking for an instance answers one
of the class that the name stands for. The exception is an instance shared under the short form of
the name: it is found before one of the class is made.
-/
namespace Wiring
set_option autoImplicit false

variable {P : Parts} {σ α : Type} {setup : Setup P σ} {runtime after : Runtime P σ}

/-- The runtimes that come about in and after runs of scripts, from one that is new. -/
inductive Runtime.Reachable (setup : Setup P σ) : Runtime P σ → Prop
  | start (world : σ) : Reachable setup { world }
  | during {α : Type} {runtime : Runtime P σ} {fuel : Nat} {script : Script P σ α}
      {moment : Moment P σ} : Reachable setup runtime →
    moment ∈ history setup fuel script runtime → Reachable setup moment.runtime
  | after {α : Type} {runtime after : Runtime P σ} {fuel : Nat} {script : Script P σ α}
      {value : α} : Reachable setup runtime →
    (perform setup fuel script).run runtime = some (value, after) → Reachable setup after

/-- What a factory makes is of the class that it is catalogued under. -/
def Setup.Faithful (setup : Setup P σ) : Prop :=
  ∀ className factory, setup.catalog.get? className = some factory →
    ∀ runtime, Runtime.Reachable setup runtime → ∀ args fuel held after,
      (Runtime.perform setup fuel (factory args).run).run runtime = some (.ok held, after) →
        held.className = className

def Runtime.Filed (runtime : Runtime P σ) : Prop :=
  ∀ className held, runtime.singletons.get? className = some held → held.className = className

theorem Runtime.filed_withShared {held : Instance P} {className : String} (h : runtime.Filed)
    (hName : held.className = className) : (runtime.withShared className held).Filed :=
  forall_withShared h hName

namespace Watched

open Traced

/-- What is constructed is what the factory makes one level deeper, and its start is noted. -/
theorem factory_of_construct {inner : {α : Type} → Script P σ α → Watched P σ α}
    {className : String} {args : List Value} {made : Instance P} {moments : List (Moment P σ)}
    (h : construct setup refuse start inner className args runtime =
      (some (.ok made, after), moments)) :
    ∃ factory between, setup.catalog.get? className = some factory ∧
      ⟨.started className, runtime.deeper⟩ ∈ moments ∧
      (inner (factory args).run runtime.deeper).1 = some (.ok made, between) := by
  rw [construct] at h
  split at h
  · cases h
  cases hFactory : setup.catalog.get? className with
  | none =>
    rw [hFactory] at h
    cases h
  | some factory =>
    rw [hFactory] at h
    dsimp only at h
    rw [start_apply] at h
    obtain ⟨hResult, hMoments⟩ := Prod.mk.inj h
    obtain ⟨⟨_, between⟩, hRun, hPair⟩ := Option.map_eq_some_iff.mp hResult
    cases hPair
    exact ⟨factory, between, rfl, hMoments ▸ List.mem_cons_self, hRun⟩

end Watched

namespace Law

open Traced Watched

/-- The runtimes in and after a run are filed, if those in it come about from one that is new. -/
def filing (setup : Setup P σ) : Law P σ where
  rel before moments after := before.Filed →
    (∀ moment ∈ moments, Runtime.Reachable setup moment.runtime) →
      (∀ moment ∈ moments, moment.runtime.Filed) ∧ ∀ runtime ∈ after, runtime.Filed
  refl runtime hStart _ := ⟨nofun, by rintro _ ⟨⟩; exact hStart⟩
  trans {before between after first second} hFirst hSecond hStart hReachable := by
    obtain ⟨hFirstReachable, hSecondReachable⟩ := List.forall_mem_append.mp hReachable
    obtain ⟨hBefore, hBetween⟩ := hFirst hStart hFirstReachable
    obtain ⟨hAfter, hLast⟩ := hSecond (hBetween between rfl) hSecondReachable
    exact ⟨List.forall_mem_append.mpr ⟨hBefore, hAfter⟩, hLast⟩

theorem filing_quiet {act : Run P σ α} (hSame : Runtime.Keeping act) :
    (filing setup).Obeys (quiet act) := by
  refine obeys_quiet (fun _ _ _ => ⟨nofun, nofun⟩) ?_
  intro runtime value after hRun hStart _
  refine ⟨nofun, ?_⟩
  rintro _ ⟨⟩ className held hHeld
  rw [hSame runtime value after hRun] at hHeld
  exact hStart className held hHeld

theorem filing_note (event : Event P) : (filing setup).Obeys (note event) := by
  intro runtime hStart _
  refine ⟨List.forall_mem_singleton.mpr hStart, ?_⟩
  rintro _ ⟨⟩
  exact hStart

theorem filing_plant (held : Instance P) : (filing setup).Obeys (plant held) := by
  intro runtime hStart _
  have hFiled : (runtime.withShared held.className held).Filed :=
    Runtime.filed_withShared hStart rfl
  refine ⟨List.forall_mem_singleton.mpr hFiled, ?_⟩
  rintro _ ⟨⟩
  exact hFiled

theorem filing_asking (hFaithful : setup.Faithful) (fuel : Nat) :
    (filing setup).Asking setup (watch setup fuel) where
  shared _ hStart _ := ⟨by simpa using hStart, by rintro _ ⟨⟩; exact hStart⟩
  sharedShort _ _ _ _ hStart _ := ⟨by simpa using hStart, by rintro _ ⟨⟩; exact hStart⟩
  missing _ hStart _ := ⟨by simpa using hStart, by rintro _ ⟨⟩; exact hStart⟩
  sharedMeanwhile _ hStart _ := ⟨by simpa using hStart, by rintro _ ⟨⟩; exact hStart⟩
  made {runtime after _ _ className made moments} _ _ hConstruct hRel _ hStart hReachable := by
    obtain ⟨hEarlier, _⟩ := List.forall_mem_append.mp hReachable
    obtain ⟨_, hNested⟩ := List.forall_mem_cons.mp hEarlier
    obtain ⟨hMoments, hAfter⟩ := hRel hStart hNested
    obtain ⟨factory, between, hFactory, hStarted, hRun⟩ := factory_of_construct hConstruct
    have hMade : made.className = className := by
      refine hFaithful className factory hFactory runtime.deeper ?_ [] fuel made between ?_
      · exact hNested _ hStarted
      · rw [← plain_watch]
        exact hRun
    have hFiled : (after.withShared className made).Filed :=
      Runtime.filed_withShared (hAfter after rfl) hMade
    refine ⟨List.forall_mem_append.mpr ⟨?_, List.forall_mem_singleton.mpr hFiled⟩, ?_⟩
    · exact List.forall_mem_cons.mpr ⟨hStart, hMoments⟩
    · rintro _ ⟨⟩
      exact hFiled

theorem filing_watch (hFaithful : setup.Faithful) (fuel : Nat) (script : Script P σ α) :
    (filing setup).Obeys (watch setup fuel script) :=
  Asking.obeys_watch (filing_note .asked) (fun className => filing_note (.started className))
    filing_plant filing_quiet (filing_asking hFaithful) fuel script

end Law

namespace Runtime

open Law

theorem Reachable.filed (hFaithful : setup.Faithful) (h : Reachable setup runtime) :
    runtime.Filed := by
  induction h with
  | start world => exact nofun
  | @during _ runtime fuel script moment hRuntime hMem ih =>
    have hFiled := filing_watch hFaithful fuel script runtime ih fun moment hMem =>
      hRuntime.during hMem
    exact hFiled.1 moment hMem
  | @after _ runtime after fuel script value hRuntime hRun ih =>
    have hFiled := filing_watch hFaithful fuel script runtime ih fun moment hMem =>
      hRuntime.during hMem
    have hWatched : (Watched.watch setup fuel script runtime).1 = some (value, after) := by
      rw [← hRun, ← Watched.plain_watch]
      rfl
    exact hFiled.2 after (Option.map_eq_some_iff.mpr ⟨(value, after), hWatched, rfl⟩)

/-- What is found under the short form of a name, if nothing is shared under the class. -/
def shortcut? (runtime : Runtime P σ) (name suffix className : String) : Option (Instance P) :=
  if (runtime.singletons.get? className).isSome then none
  else (Name.short? name suffix).bind runtime.singletons.get?

theorem shared_or_shortcut {inner : {α : Type} → Script P σ α → Watched P σ α}
    {name suffix className : String} {held : Instance P} {moments : List (Moment P σ)}
    (h : Watched.Seeking runtime className setup inner name suffix (some (.ok held, after))
      moments) :
    (runtime.shortcut? name suffix className = none ∧
      after.singletons.get? className = some held) ∨
    ∃ short, Name.shorten name suffix = .ok short ∧ runtime.singletons.get? short = some held ∧
      runtime.shortcut? name suffix className = some held := by
  have hShort {short : String} (hName : Name.shorten name suffix = .ok short)
      (hNone : runtime.singletons.get? className = none) :
      runtime.shortcut? name suffix className = runtime.singletons.get? short := by
    rw [shortcut?, hNone, (Name.shorten_eq_ok_iff name suffix short).mp hName]
    rfl
  cases h with
  | shared _ hShared =>
    left
    rw [shortcut?, hShared]
    exact ⟨rfl, rfl⟩
  | sharedShort short _ hNone hName hShared =>
    right
    exact ⟨short, hName, hShared, (hShort hName hNone).trans hShared⟩
  | sharedMeanwhile short made _ _ _ hNone hName hShortNone _ hShared =>
    left
    exact ⟨(hShort hName hNone).trans hShortNone, hShared⟩
  | made short _ between _ hNone hName hShortNone =>
    left
    refine ⟨(hShort hName hNone).trans hShortNone, ?_⟩
    rw [get?_withShared, if_pos rfl]

theorem perform_get (setup : Setup P σ) (fuel : Nat) (name suffix : String) :
    perform setup fuel (Script.get name suffix).run = answer setup fuel (.get name suffix) :=
  bind_pure _

/-- Asking for a shared instance that succeeds answers one of the class that the name stands for,
unless there is a shortcut. That is answered then, and the short form of the name is its class. -/
theorem className_get (hFaithful : setup.Faithful) (hReachable : Reachable setup runtime)
    {fuel : Nat} {name suffix : String} {held : Instance P}
    (hGet : (perform setup fuel (Script.get name suffix).run).run runtime =
      some (.ok held, after)) :
    ∃ className, (resolve setup name suffix).run.run' runtime = some (.ok className) ∧
      (runtime.shortcut? name suffix className = none → held.className = className) ∧
      ∀ shared, runtime.shortcut? name suffix className = some shared →
        held = shared ∧ Name.shorten name suffix = .ok held.className := by
  have hFiled : runtime.Filed := hReachable.filed hFaithful
  have hFiledAfter : after.Filed := (hReachable.after hGet).filed hFaithful
  rw [perform_get] at hGet
  cases fuel with
  | zero => cases hGet
  | succ fuel =>
    rw [← Watched.plain_answer] at hGet
    obtain ⟨className, between, hFound, hSame, hAsking⟩ :=
      Watched.asking_of_obtain (Prod.ext hGet rfl)
    have hShortcut : between.shortcut? name suffix className =
        runtime.shortcut? name suffix className := by
      rw [shortcut?, shortcut?, hSame]
    refine ⟨className, by rw [run'_resolve, hFound], ?_⟩
    rcases shared_or_shortcut (Watched.seeking_asking hAsking) with
      ⟨hNone, hShared⟩ | ⟨short, hShort, hShared, hSome⟩
    · rw [hShortcut] at hNone
      refine ⟨fun _ => hFiledAfter className held hShared, fun shared hShared => ?_⟩
      rw [hNone] at hShared
      cases hShared
    · rw [hShortcut] at hSome
      rw [hSame] at hShared
      refine ⟨fun hNone => ?_, fun shared hFoundShort => ?_⟩
      · rw [hSome] at hNone
        cases hNone
      · rw [hSome] at hFoundShort
        exact ⟨Option.some.inj hFoundShort, hFiled short held hShared ▸ hShort⟩

theorem className_constant {fuel : Nat} {component : Component P} {args : List Value}
    {held : Instance P}
    (h : (perform setup fuel (Factory.constant component args).run).run runtime =
      some (.ok held, after)) : held.className = component.className := by
  cases fuel with
  | zero => cases h
  | succ fuel =>
    cases h
    rfl

def irregularSetup : Setup ⟨Empty, Empty, Empty⟩ Unit where
  catalog := Table.ofList <| [⟨"kieli", .plain⟩, ⟨"Savoksi\\Suomi", .plain⟩].map
    fun component : Component ⟨Empty, Empty, Empty⟩ =>
      (component.className, Factory.constant component)
  write := nofun
  invoke := nofun
  program := nofun

theorem irregularSetup_faithful : irregularSetup.Faithful := by
  intro className factory hFactory runtime _ args fuel held after hRun
  have hEntry : (className, factory) ∈ irregularSetup.catalog.entries :=
    Entries.mem_of_get? hFactory
  have hKnown : ∃ component : Component ⟨Empty, Empty, Empty⟩,
      className = component.className ∧ factory = Factory.constant component := by
    rcases List.mem_cons.mp hEntry with hSame | hRest
    · cases hSame
      exact ⟨⟨"kieli", .plain⟩, rfl, rfl⟩
    · cases List.mem_singleton.mp hRest
      exact ⟨⟨"Savoksi\\Suomi", .plain⟩, rfl, rfl⟩
  obtain ⟨component, rfl, rfl⟩ := hKnown
  exact className_constant hRun

/-- The runtime after an instance was asked for by the irregular name, and then another class was
registered for the canonical form of that name. -/
def overridden : Runtime ⟨Empty, Empty, Empty⟩ Unit where
  singletons := Table.ofList [("kieli", ⟨0, "kieli", .plain⟩)]
  stack := [Context.register {} "Savoksi\\Kieli" "Savoksi\\Suomi"]
  made := 1
  world := ()

theorem overridden_reachable : Reachable irregularSetup overridden := by
  let script : Script ⟨Empty, Empty, Empty⟩ Unit Unit := do
    let _ ← (Script.get "kieli" "").run
    Script.perform (.register "Savoksi\\Kieli" (some (.named "Savoksi\\Suomi")))
  have hRun : (perform irregularSetup 2 script).run { world := () } = some ((), overridden) := rfl
  exact (Reachable.start ()).after hRun

theorem className_get_overridden :
    irregularSetup.Faithful ∧ Reachable irregularSetup overridden ∧
    ∃ held after, (perform irregularSetup 2 (Script.get "kieli" "").run).run overridden =
        some (.ok held, after) ∧
      ∃ className, (resolve irregularSetup "kieli" "").run.run' overridden = some (.ok className) ∧
        (overridden.shortcut? "kieli" "" className = none → held.className = className) ∧
        ∀ shared, overridden.shortcut? "kieli" "" className = some shared →
          held = shared ∧ Name.shorten "kieli" "" = .ok held.className := by
  have hGet : (perform irregularSetup 2 (Script.get "kieli" "").run).run overridden =
      some (.ok ⟨0, "kieli", .plain⟩, overridden) := rfl
  exact ⟨irregularSetup_faithful, overridden_reachable, _, _, hGet,
    className_get irregularSetup_faithful overridden_reachable hGet⟩

/-- The name stands for the class registered for it, and yet the instance shared earlier under the
name itself is answered. -/
theorem className_get_bypasses_registration :
    irregularSetup.Faithful ∧ Reachable irregularSetup overridden ∧
    (resolve irregularSetup "kieli" "").run.run' overridden = some (.ok "Savoksi\\Suomi") ∧
    ∃ held after, (perform irregularSetup 2 (Script.get "kieli" "").run).run overridden =
        some (.ok held, after) ∧ held.className ≠ "Savoksi\\Suomi" := by
  refine ⟨irregularSetup_faithful, overridden_reachable, rfl, ⟨0, "kieli", .plain⟩, overridden, rfl,
    ?_⟩
  decide

end Runtime
end Wiring
