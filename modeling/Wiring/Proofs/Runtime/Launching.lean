import Wiring.Proofs.Runtime.Attempts
import Wiring.Proofs.Runtime.Entering

/-! # Launches

A program is launched in three steps. Its components are registered in a copy of the active context,
and the instances among them become shared ones. Then its settings are stored in that copy, which
they may be refused by. Only then the copy is entered and the program runs. So a launch that is
refused leaves the contexts as they were, and of its components the shared instances.
-/
namespace Wiring
set_option autoImplicit false

variable {P : Parts} {σ : Type} {setup : Setup P σ}

/-- The instances that targets bring along, in order. New ones are numbered from `made` on. -/
def brought (made : Nat) : List (String × Target P) → List (Instance P)
  | [] => []
  | (_, .named _) :: rest => brought made rest
  | (_, .ready held) :: rest => held :: brought made rest
  | (_, .fresh component) :: rest => ⟨made, component⟩ :: brought (made + 1) rest

/-- A class of which instances are brought along shares the last of them, any other class what it
shared before. -/
structure SharesBrought (before : Table (Instance P)) (instances : List (Instance P))
    (after : Table (Instance P)) : Prop where
  last {earlier later : List (Instance P)} {held : Instance P} :
    instances = earlier ++ held :: later → (∀ other ∈ later, other.className ≠ held.className) →
      after.get? held.className = some held
  kept {className : String} : (∀ held ∈ instances, held.className ≠ className) →
    after.get? className = before.get? className

def sharingAll (table : Table (Instance P)) (instances : List (Instance P)) : Table (Instance P) :=
  instances.foldl (fun table held => table.set held.className held) table

theorem sharesBrought_sharingAll (table : Table (Instance P)) (instances : List (Instance P)) :
    SharesBrought table instances (sharingAll table instances) := by
  have hRead (className : String) : (sharingAll table instances).get? className =
      (Entries.get? className (instances.map fun held => (held.className, held)).reverse).or
        (table.get? className) := by
    rw [← Table.get?_foldl_set, List.foldl_map]
    rfl
  have hKeys {held : List (Instance P)} {className : String}
      (h : ∀ other ∈ held, other.className ≠ className) :
      className ∉ Entries.keys (held.map fun held => (held.className, held)) := by
    rw [Entries.keys, List.map_map, List.mem_map]
    rintro ⟨other, hMem, rfl⟩
    exact h other hMem rfl
  constructor
  · rintro earlier later held rfl hLast
    rw [hRead, List.map_append, List.map_cons, Entries.get?_reverse_of_last (hKeys hLast)]
    rfl
  · intro className hNone
    rw [hRead, Entries.get?_reverse_of_not_mem (hKeys hNone)]
    rfl

namespace Runtime

def newlyMade : List (String × Target P) → Nat
  | [] => 0
  | (_, .fresh _) :: rest => newlyMade rest + 1
  | _ :: rest => newlyMade rest

/-- The runtime in which the instances that targets bring along are shared ones. -/
def seeded (runtime : Runtime P σ) (components : List (String × Target P)) : Runtime P σ :=
  { runtime with
    singletons := sharingAll runtime.singletons (brought runtime.made components)
    made := runtime.made + newlyMade components }

theorem run_seed_seeded (name : String) (target : Target P) (runtime : Runtime P σ) :
    (seed target).run runtime = some (target.className, runtime.seeded [(name, target)]) := by
  cases target <;> rfl

theorem seeded_seeded (runtime : Runtime P σ) (entry : String × Target P)
    (rest : List (String × Target P)) :
    (runtime.seeded [entry]).seeded rest = runtime.seeded (entry :: rest) := by
  obtain ⟨name, _ | _ | _⟩ := entry
  · rfl
  · rfl
  · simp [seeded, brought, newlyMade, sharingAll, Nat.add_assoc, Nat.add_comm]

theorem seeded_of_brought_eq_nil {runtime : Runtime P σ} {components : List (String × Target P)}
    (h : brought runtime.made components = []) : runtime.seeded components = runtime := by
  induction components with
  | nil => rfl
  | cons entry rest ih =>
    obtain ⟨name, _ | _ | _⟩ := entry
    · exact ih h
    · cases h
    · cases h

end Runtime

/-- A context in which components are registered, a later one for a name in place of one before. -/
def Context.withComponents (context : Context) (components : List (String × Target P)) : Context :=
  components.foldl (fun context entry => context.register entry.1 entry.2.className) context

namespace Runtime

theorem run_registering (components : List (String × Target P)) (context : Context)
    (runtime : Runtime P σ) :
    (components.foldlM (m := Run P σ) (fun context entry =>
      return context.register entry.1 (← seed entry.2)) context).run runtime =
      some (context.withComponents components, runtime.seeded components) := by
  induction components generalizing context runtime with
  | nil => rfl
  | cons entry rest ih =>
    have hSeed := run_seed_seeded entry.1 entry.2 runtime
    rw [List.foldlM_cons, StateT.run_bind, StateT.run_bind, hSeed]
    refine (ih (context.register entry.1 entry.2.className) (runtime.seeded [entry])).trans ?_
    rw [seeded_seeded]
    rfl

def componentsOf (setup : Setup P σ) (task : Task P) (runtime : Runtime P σ) :
    List (String × Target P) :=
  (setup.task task).components runtime.world

/-- The context that a task is to run in, before its settings are stored. -/
def launchContext (setup : Setup P σ) (task : Task P) (runtime : Runtime P σ) : Context :=
  runtime.active.withComponents (componentsOf setup task runtime)

/-- A program is executed: its settings are refused, or its body runs once in the context that they
are stored in. -/
inductive Executed (setup : Setup P σ) (inner : {α : Type} → Script P σ α → Run P σ α)
    (task : Task P) (args : List String) (runtime : Runtime P σ) :
    Except Failure Value → Runtime P σ → Prop
  | refused {failure : Failure} :
    (launchContext setup task runtime).setConfigAll (setup.task task).settings = .error failure →
    Executed setup inner task args runtime (.error failure)
      (runtime.seeded (componentsOf setup task runtime))
  | ran {context : Context} {outcome : Except Failure Value} {left : Runtime P σ} :
    (launchContext setup task runtime).setConfigAll (setup.task task).settings = .ok context →
    (inner ((setup.task task).body args).run).run
      ((runtime.seeded (componentsOf setup task runtime)).pushing context) = some (outcome, left) →
    Executed setup inner task args runtime outcome left.popped

section Executing

variable {inner : {α : Type} → Script P σ α → Run P σ α} {runtime : Runtime P σ} {task : Task P}
  {args : List String}

theorem run_execute_launch (hStack : runtime.stack ≠ []) :
    (execute setup inner task args).run.run runtime =
      match (launchContext setup task runtime).setConfigAll (setup.task task).settings with
      | .error failure => some (.error failure, runtime.seeded (componentsOf setup task runtime))
      | .ok context => (enter context (inner ((setup.task task).body args).run)).run
          (runtime.seeded (componentsOf setup task runtime)) := by
  have hCurrent : current.run runtime = some (runtime.active, runtime) := by
    rw [run_current, withActive_active hStack]
  have hGet : (get : Trial P σ (Runtime P σ)).run.run runtime = some (.ok runtime, runtime) := rfl
  rw [execute, run_bind_of_ok (run_sure hCurrent), run_bind_of_ok hGet,
    run_bind_of_ok (run_sure (run_registering _ _ _))]
  cases hSettings : (launchContext setup task runtime).setConfigAll (setup.task task).settings with
  | error failure => exact run_bind_of_error (run_liftM_of_eq hSettings) _
  | ok context => exact run_bind_of_ok (run_liftM_of_eq hSettings) _

theorem run_execute_iff (hStack : runtime.stack ≠ []) {outcome : Except Failure Value}
    {left : Runtime P σ} :
    (execute setup inner task args).run.run runtime = some (outcome, left) ↔
      Executed setup inner task args runtime outcome left := by
  rw [run_execute_launch hStack]
  constructor
  · intro hRun
    cases hSettings :
      (launchContext setup task runtime).setConfigAll (setup.task task).settings with
    | error failure =>
      rw [hSettings] at hRun
      cases hRun
      exact .refused hSettings
    | ok context =>
      simp only [hSettings, run_enter] at hRun
      obtain ⟨⟨result, inside⟩, hBody, hEnd⟩ := Option.map_eq_some_iff.mp hRun
      cases hEnd
      exact .ran hSettings hBody
  · rintro (hSettings | ⟨hSettings, hBody⟩)
    · rw [hSettings]
    · simp only [hSettings, run_enter, hBody, Option.map_some]

theorem run_ready (setup : Setup P σ) (inner : {α : Type} → Script P σ α → Run P σ α)
    (task : Task P) (args : List String) :
    run setup inner (.ready task) args = execute setup inner task args := rfl

end Executing

theorem exists_setConfigAll_eq_error {settings : Value} (hNull : settings.isNull = false)
    (hContainer : settings.isContainer = false) (context : Context) :
    ∃ failure, context.setConfigAll settings = .error failure ∧ failure.kind = .invalidArgument := by
  cases settings with
  | null => cases hNull
  | sequence items => cases hContainer
  | mapping entries => cases hContainer
  | _ => exact ⟨_, rfl, rfl⟩

/-- A program whose settings are neither null nor a container does not run, whatever running a
script would come to. The launch fails and leaves the contexts and the world as they were. Its
components leave the instances that they bring along, and where they bring none, nothing is changed.
-/
theorem run_refused {runtime : Runtime P σ} (hStack : runtime.stack ≠ []) {task : Task P}
    (hNull : (setup.task task).settings.isNull = false)
    (hContainer : (setup.task task).settings.isContainer = false) (args : List String) :
    ∃ failure after, failure.kind = .invalidArgument ∧
      (∀ inner : {α : Type} → Script P σ α → Run P σ α,
        (run setup inner (.ready task) args).run.run runtime = some (.error failure, after)) ∧
      after.stack = runtime.stack ∧ after.world = runtime.world ∧ after.depth = runtime.depth ∧
      SharesBrought runtime.singletons (brought runtime.made (componentsOf setup task runtime))
        after.singletons ∧
      (brought runtime.made (componentsOf setup task runtime) = [] → after = runtime) := by
  obtain ⟨failure, hRefused, hKind⟩ :=
    exists_setConfigAll_eq_error hNull hContainer (launchContext setup task runtime)
  refine ⟨failure, runtime.seeded (componentsOf setup task runtime), hKind, fun inner => ?_, rfl, rfl,
    rfl, sharesBrought_sharingAll _ _, seeded_of_brought_eq_nil⟩
  rw [run_ready, run_execute_iff hStack]
  exact .refused hRefused

def refusingSetup : Setup ⟨Empty, Empty, Unit⟩ Unit where
  catalog := .empty
  write := nofun
  invoke := nofun
  program _ := {
    components := fun _ => [("kieli", .fresh ⟨"Savoksi\\Suomi", .plain⟩), ("oma", .named "Oma\\Kieli"),
      ("suomi", .fresh ⟨"Savoksi\\Suomi", .plain⟩)]
    settings := .integer 5
    body := fun _ => return .null }

theorem run_refused_number :
    let runtime : Runtime ⟨Empty, Empty, Unit⟩ Unit := { stack := [{}], world := () }
    let settings := (refusingSetup.task (.program ())).settings
    runtime.stack ≠ [] ∧ settings.isNull = false ∧ settings.isContainer = false ∧
    ∃ failure after, failure.kind = .invalidArgument ∧
      (run refusingSetup (perform refusingSetup 1) (.ready (.program ())) []).run.run runtime =
        some (.error failure, after) ∧
      after.stack = runtime.stack ∧
      after.singletons.get? "Savoksi\\Suomi" = some ⟨1, "Savoksi\\Suomi", .plain⟩ ∧
      after.singletons.get? "Oma\\Kieli" = none := by
  intro runtime settings
  have hStack : runtime.stack ≠ [] := List.cons_ne_nil _ _
  have hNull : (refusingSetup.task (.program ())).settings.isNull = false := rfl
  obtain ⟨failure, after, hKind, hRun, hSame, _, _, hShares, _⟩ := run_refused hStack hNull rfl []
  have hBrought : brought runtime.made (componentsOf refusingSetup (.program ()) runtime) =
      [⟨0, "Savoksi\\Suomi", .plain⟩] ++ ⟨1, "Savoksi\\Suomi", .plain⟩ :: [] := rfl
  refine ⟨hStack, hNull, rfl, failure, after, hKind, hRun _, hSame, hShares.last hBrought nofun, ?_⟩
  exact hShares.kept (by decide)

/-- The language that a refused program brought along is answered from then on. -/
theorem run_refused_leaves_instance :
    let runtime : Runtime ⟨Empty, Empty, Unit⟩ Unit := { stack := [{}], world := () }
    let request : Script ⟨Empty, Empty, Unit⟩ Unit (Except Failure (Instance ⟨Empty, Empty, Unit⟩)) :=
      (Script.get "suomi" "").run
    (refusingSetup.task (.program ())).settings.isNull = false ∧
    (refusingSetup.task (.program ())).settings.isContainer = false ∧
    (∃ failure, (perform refusingSetup 2 request).run' runtime = some (.error failure)) ∧
    ∃ failure after, (perform refusingSetup 2 (Script.perform (.run (.ready (.program ())) []))).run
        runtime = some (.error failure, after) ∧
      after.singletons ≠ runtime.singletons ∧
      ∃ held, (perform refusingSetup 2 request).run' after = some (.ok held) := by
  intro runtime request
  refine ⟨rfl, rfl, ⟨_, rfl⟩, _, _, rfl, ?_, _, rfl⟩
  intro hSame
  have hShared := congrArg (·.get? "Savoksi\\Suomi") hSame
  cases hShared

end Runtime
end Wiring
