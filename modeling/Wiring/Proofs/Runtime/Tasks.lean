import Wiring.Proofs.Runtime.Creation
import Wiring.Proofs.Runtime.Reporting

/-! # Maintenance tasks

In a runtime whose package manager is shared and registered, a maintenance command asks the
manager's runner once. Nothing else that it does reaches the world, but for the message that is
shown where the runner fails and no trace is asked for.
-/
namespace Wiring.Runtime
set_option autoImplicit false

variable {P : Parts} {σ α β : Type} {setup : Setup P σ} {runtime : Runtime P σ}

section Maintaining

variable {runner : P.Runner}

structure Manages (setup : Setup P σ) (runner : P.Runner) (runtime : Runtime P σ) : Prop where
  stack : runtime.stack ≠ []
  shared : ∃ className held, resolution setup runtime.active packageManagerName "" = .ok className ∧
    runtime.singletons.get? className = some held ∧ held.asPackageManager = .ok (some runner)

theorem perform_packageManager (h : Manages setup runner runtime) (fuel : Nat) :
    (perform setup (fuel + 1) (Script.packageManager packageManagerName).run).run runtime =
      some (.ok (some runner), runtime) := by
  obtain ⟨className, held, hResolves, hShared, hManager⟩ := h.shared
  have hGet : (perform setup (fuel + 1) (Script.get packageManagerName "").run).run runtime =
      some (.ok held, runtime) := by
    rw [perform_get]
    show (obtain setup (perform setup fuel) packageManagerName "").run.run runtime = _
    rw [obtain, run_bind_of_ok (run_resolve_of_resolution h.stack hResolves),
      run_bind_of_ok (run_shared hShared)]
    rfl
  rw [Script.packageManager, perform_bind_of_ok hGet, hManager]
  rfl

/-- The task asks the runner once, and fails if it does. -/
theorem perform_maintain (h : Manages setup runner runtime) (fuel : Nat) (args : List String) :
    (perform setup (fuel + 1) (Task.maintain args).run).run runtime =
      some ((setup.invoke runner args runtime.world).1.map fun _ => .null,
        runtime.withWorld (setup.invoke runner args runtime.world).2) := by
  have hInvoke : (perform setup (fuel + 1) (Script.manage (some runner) args).run).run runtime =
      some ((setup.invoke runner args runtime.world).1,
        runtime.withWorld (setup.invoke runner args runtime.world).2) := rfl
  rw [Task.maintain, perform_bind_of_ok (perform_packageManager h fuel)]
  cases hResult : (setup.invoke runner args runtime.world).1 with
  | ok value =>
    rw [hResult] at hInvoke
    rw [perform_bind_of_ok hInvoke]
    rfl
  | error failure =>
    rw [hResult] at hInvoke
    rw [perform_bind_of_error hInvoke]
    rfl

theorem run_execute (h : Manages setup runner runtime) {task : Task P}
    {argsOf : List String → List String}
    (hTask : setup.task task = { body := fun files => Task.maintain (argsOf files) }) (fuel : Nat)
    (files : List String) :
    (execute setup (perform setup (fuel + 1)) task files).run.run runtime =
      some ((setup.invoke runner (argsOf files) runtime.world).1.map fun _ => .null,
        runtime.withWorld (setup.invoke runner (argsOf files) runtime.world).2) := by
  have hInside : Manages setup runner (runtime.pushing runtime.active) :=
    ⟨List.cons_ne_nil _ _, h.shared⟩
  have hNone : componentsOf setup task runtime = [] := by rw [componentsOf, hTask]
  have hSettings : (launchContext setup task runtime).setConfigAll (setup.task task).settings =
      .ok runtime.active := by
    rw [launchContext, hNone, hTask]
    rfl
  have hBody : (perform setup (fuel + 1) ((setup.task task).body files).run).run
      ((runtime.seeded (componentsOf setup task runtime)).pushing runtime.active) =
      some ((setup.invoke runner (argsOf files) runtime.world).1.map fun _ => .null,
        (runtime.pushing runtime.active).withWorld
          (setup.invoke runner (argsOf files) runtime.world).2) := by
    rw [hNone, hTask]
    exact perform_maintain hInside fuel (argsOf files)
  have hExecuted : Executed setup (perform setup (fuel + 1)) task files runtime _ _ :=
    .ran hSettings hBody
  exact (run_execute_iff h.stack).mpr hExecuted

end Maintaining

section Constructing

variable {name className : String} {component : Component P}

def instantiated (runtime : Runtime P σ) : Runtime P σ := { runtime with made := runtime.made + 1 }

theorem run_construct_constant (h : runtime.depth < setup.maxDepth)
    (hFactory : setup.catalog.get? className = some (Factory.constant component)) (fuel : Nat)
    (args : List Value) :
    (construct setup (perform setup (fuel + 1)) className args).run.run runtime =
      some (.ok ⟨runtime.made, component⟩, runtime.instantiated) := by
  rw [run_construct_of_factory (Nat.not_le_of_lt h) hFactory]
  rfl

theorem run_createTask (hStack : runtime.stack ≠ []) (hRoom : runtime.depth < setup.maxDepth)
    (hResolves : resolution setup runtime.active name "" = .ok className)
    (hFactory : setup.catalog.get? className = some (Factory.constant component)) {task : Task P}
    (hTask : component.kind = .task task) (fuel : Nat) :
    (createTask setup (perform setup (fuel + 1)) name).run.run runtime =
      some (.ok task, runtime.instantiated) := by
  have hCreate : (create setup (perform setup (fuel + 1)) name []).run.run runtime =
      some (.ok ⟨runtime.made, component⟩, runtime.instantiated) := by
    rw [create, run_bind_of_ok (run_resolve_of_resolution hStack hResolves)]
    exact run_construct_constant hRoom hFactory fuel []
  rw [createTask, run_bind_of_ok hCreate]
  simp only [Instance.task?, hTask]
  rfl

theorem run_obtain_constant (hStack : runtime.stack ≠ []) (hRoom : runtime.depth < setup.maxDepth)
    (hResolves : resolution setup runtime.active name "" = .ok className)
    (hNew : runtime.singletons.get? className = none) {short : String}
    (hShort : Name.shorten name "" = .ok short) (hNewShort : runtime.singletons.get? short = none)
    (hFactory : setup.catalog.get? className = some (Factory.constant component)) (fuel : Nat) :
    ∃ after, (obtain setup (perform setup (fuel + 1)) name "").run.run runtime =
      some (.ok ⟨runtime.made, component⟩, after) ∧ after.world = runtime.world := by
  have hNewAfter : runtime.instantiated.singletons.get? className = none := hNew
  rw [obtain, run_bind_of_ok (run_resolve_of_resolution hStack hResolves),
    run_bind_of_ok (run_shared hNew)]
  dsimp only
  rw [run_bind_of_ok (run_liftM_of_eq hShort), run_bind_of_ok (run_shared hNewShort)]
  dsimp only
  rw [run_bind_of_ok (run_construct_constant hRoom hFactory fuel []),
    run_bind_of_ok (run_shared hNewAfter)]
  exact ⟨_, rfl, rfl⟩

end Constructing

section Commands

variable {runner : P.Runner} {sink : P.Sink}

/-- Besides the managed runner, the runtime has the built-in components and room to make them. No
terminal has been shared so far. -/
structure Furnished (setup : Setup P σ) (runner : P.Runner) (sink : P.Sink)
    (runtime : Runtime P σ) : Prop extends Manages setup runner runtime where
  builtin : setup.catalog = .builtin sink
  room : runtime.depth < setup.maxDepth
  terminal : resolution setup runtime.active terminalName "" = .ok Component.terminalClass
  unshared : runtime.singletons.get? Component.terminalClass = none ∧
    runtime.singletons.get? terminalName = none

theorem Furnished.withWorld (h : Furnished setup runner sink runtime) (world : σ) :
    Furnished setup runner sink (runtime.withWorld world) :=
  ⟨⟨h.stack, h.shared⟩, h.builtin, h.room, h.terminal, h.unshared⟩

theorem Furnished.instantiated (h : Furnished setup runner sink runtime) :
    Furnished setup runner sink runtime.instantiated :=
  ⟨⟨h.stack, h.shared⟩, h.builtin, h.room, h.terminal, h.unshared⟩

theorem shorten_terminalName : Name.shorten terminalName "" = .ok terminalName := by rfl

theorem exists_reported (h : Furnished setup runner sink runtime) (fuel : Nat) (message : String)
    (hWrites : ∀ text world, (setup.put sink text world).1 = .ok ()) :
    ∃ after, Reported setup (perform setup (fuel + 1)) message runtime (.ok ()) after ∧
      after.world = (setup.put sink (Line.format [.string message]) runtime.world).2 := by
  have hFactory : setup.catalog.get? Component.terminalClass =
      some (Factory.constant (.terminal sink)) := by
    rw [h.builtin]
    rfl
  obtain ⟨after, hObtain, hWorld⟩ := run_obtain_constant h.stack h.room h.terminal h.unshared.1
    shorten_terminalName h.unshared.2 hFactory fuel
  refine ⟨_, .written hObtain rfl (Prod.ext (hWrites _ _) rfl), ?_⟩
  rw [hWorld]
  rfl

/-- What comes of a maintenance command: the runner is asked once, and what it fails with is shown
unless a trace is asked for. -/
inductive Maintained (setup : Setup P σ) (runner : P.Runner) (sink : P.Sink)
    (verbosity : Verbosity) (args : List String) (world : σ) : Except Failure Value → σ → Prop
  | done {after : σ} : setup.invoke runner args world = (.ok (), after) →
    Maintained setup runner sink verbosity args world (.ok .null) after
  | traced {failure : Failure} {after : σ} : setup.invoke runner args world = (.error failure, after) →
    verbosity = .trace → Maintained setup runner sink verbosity args world (.error failure) after
  | shown {failure : Failure} {after : σ} : setup.invoke runner args world = (.error failure, after) →
    verbosity ≠ .trace → Maintained setup runner sink verbosity args world (.ok .null)
      (setup.put sink (Line.format [.string failure.message]) after).2

section Named

variable {name className : String} {task : Task P} {argsOf : List String → List String}
  (h : Furnished setup runner sink runtime)
  (hLong : Name.canonicalize name commandSuffix = .ok className)
  (hResolves : resolution setup runtime.active className "" = .ok className)
  (hFactory : setup.catalog.get? className = some (Factory.constant ⟨className, .task task⟩))

include h hLong hResolves hFactory

theorem run_command_named (fuel : Nat) (words : List String) :
    (command setup (perform setup (fuel + 1)) (.named name) words).run.run runtime =
      (command setup (perform setup (fuel + 1)) (.ready task) words).run.run
        runtime.instantiated := by
  have hCreated := run_createTask h.stack h.room hResolves hFactory rfl fuel
  conv_lhs => rw [command, run_bind_of_ok (run_liftM_of_eq hLong), run_bind_of_ok hCreated]
  rfl

theorem run_command_of_read_error {words : List String} {failure : Failure}
    (hRead : CommandLine.read words = .error failure) (fuel : Nat) :
    (command setup (perform setup (fuel + 1)) (.named name) words).run.run runtime =
      some (.error failure, runtime.instantiated) := by
  rw [run_command_named h hLong hResolves hFactory]
  exact run_command_of_read_eq_error hRead

theorem run_command_of_read {words : List String} {line : CommandLine}
    (hRead : CommandLine.read words = .ok line)
    (hTask : setup.task task = { body := fun files => Task.maintain (argsOf files) })
    (hWrites : ∀ text world, (setup.put sink text world).1 = .ok ()) (fuel : Nat) :
    ∃ result after, (command setup (perform setup (fuel + 1)) (.named name) words).run.run runtime =
      some (result, after) ∧
      Maintained setup runner sink line.verbosity (argsOf line.files) runtime.world result
        after.world := by
  have hStack : runtime.instantiated.stack ≠ [] := h.stack
  have hExecute := run_execute h.instantiated.toManages hTask fuel line.files
  rw [run_execute_iff hStack] at hExecute
  rw [run_command_named h hLong hResolves hFactory]
  simp only [run_command_iff hStack hRead]
  obtain ⟨reply, world, hInvoke⟩ : ∃ reply world,
      setup.invoke runner (argsOf line.files) runtime.world = (reply, world) := ⟨_, _, rfl⟩
  have hInvoked : setup.invoke runner (argsOf line.files) runtime.instantiated.world =
      (reply, world) := hInvoke
  rw [hInvoked] at hExecute
  cases reply with
  | ok value => exact ⟨_, _, ⟨_, _, hExecute, .succeeded⟩, .done hInvoke⟩
  | error failure =>
    by_cases hTrace : line.verbosity = .trace
    · exact ⟨_, _, ⟨_, _, hExecute, .traced hTrace⟩, .traced hInvoke hTrace⟩
    · obtain ⟨after, hReported, hWorld⟩ :=
        exists_reported (h.instantiated.withWorld world) fuel failure.message hWrites
      refine ⟨_, after, ⟨_, _, hExecute, .reported hTrace hReported⟩, ?_⟩
      rw [hWorld]
      exact .shown hInvoke hTrace

end Named

end Commands

end Wiring.Runtime
