import Wiring.Cli.Program
import Wiring.Proofs.Runtime.Tasks

/-! # Maintenance commands of the program

Whatever settings are loaded, a maintenance command calls the package manager once, with the files
of its command line after a verb; a command line that cannot be read calls nothing.
-/
namespace Wiring.Cli
set_option autoImplicit false

open Wiring.Runtime

variable {surroundings : Surroundings} {settings : Option String}
  {runtime : Runtime parts Console} {name : String}

theorem registrations_of_loadFile {context loaded : Context} {path : String} {file : FileText}
    (h : context.loadFile path file = .ok loaded) :
    loaded.registrations = context.registrations := by
  cases file with
  | error cause => cases h
  | ok text =>
    rw [Context.loadFile, Context.load] at h
    cases hRead : Yaml.read? text with
    | none =>
      rw [hRead] at h
      cases h
    | some value =>
      rw [hRead] at h
      cases hStored : context.setConfigAll value with
      | error failure =>
        simp only [hStored] at h
        cases h
      | ok stored =>
        simp only [hStored] at h
        cases h
        exact Context.registrations_of_setConfigAll hStored

def wired : Context := Context.register {} packageManagerName Component.packageManagerClass

def sharedManager : Instance parts := ⟨0, .packageManager (some ())⟩

def rooted (context : Context) : Runtime parts Console where
  singletons := Table.ofList [(Component.packageManagerClass, sharedManager)]
  stack := [context]
  made := 1
  world := {}

theorem exists_start (h : start surroundings settings = .ok runtime) :
    ∃ context : Context, context.registrations = wired.registrations ∧ runtime = rooted context := by
  have hRegister {context : Context} (hEmpty : context.registrations = {}) :
      (context.register packageManagerName Component.packageManagerClass).registrations =
        wired.registrations := congrArg (Table.set · _ _) hEmpty
  cases settings with
  | none =>
    cases h
    exact ⟨wired, rfl, rfl⟩
  | some path =>
    cases hLoaded : ({} : Context).loadFile path (surroundings.read path) with
    | error failure =>
      simp only [start, hLoaded] at h
      cases h
    | ok context =>
      simp only [start, hLoaded] at h
      cases h
      exact ⟨_, hRegister (registrations_of_loadFile hLoaded), rfl⟩

theorem furnished_rooted (surroundings : Surroundings) {context : Context}
    (hWired : context.registrations = wired.registrations) :
    Furnished (setup surroundings) () () (rooted context) where
  stack := List.cons_ne_nil _ _
  shared := ⟨_, sharedManager, (resolution_congr hWired _ _ _).trans (by rfl), rfl, rfl⟩
  builtin := rfl
  room := (by decide : 0 < 100)
  terminal := (resolution_congr hWired _ _ _).trans (by rfl)
  unshared := ⟨rfl, rfl⟩

def verb (name : String) (files : List String) : String :=
  if name = "paivita" then "update" else if files.isEmpty then "install" else "require"

theorem exists_task (surroundings : Surroundings) (hName : name = "asenna" ∨ name = "paivita") :
    ∃ className task, Name.canonicalize name commandSuffix = .ok className ∧
      resolution (setup surroundings) wired className "" = .ok className ∧
      (setup surroundings).catalog.get? className =
        some (Factory.constant ⟨className, .task task⟩) ∧
      (setup surroundings).task task =
        { body := fun files => Task.maintain (verb name files :: files) } := by
  rcases hName with rfl | rfl
  · refine ⟨Component.installClass, .install, by rfl, by rfl, rfl, ?_⟩
    have hArgs : ∀ files, Task.installArgs files = verb "asenna" files :: files := by
      rintro (_ | ⟨file, files⟩) <;> rfl
    simp only [Setup.task, hArgs]
  · exact ⟨Component.updateClass, .update, by rfl, by rfl, rfl, rfl⟩

theorem calls_callManager (surroundings : Surroundings) (args : List String) (console : Console) :
    (callManager surroundings args console).2.calls = args :: console.calls := by
  rw [callManager]
  cases surroundings.manager with
  | none => rfl
  | some code =>
    dsimp only
    split <;> rfl

theorem callManager_eq_ok_iff (surroundings : Surroundings) (args : List String)
    (console : Console) :
    (callManager surroundings args console).1 = .ok () ↔ surroundings.manager = some 0 := by
  cases hManager : surroundings.manager with
  | none => simp [callManager, hManager]
  | some code =>
    by_cases hCode : code = 0 <;> simp [callManager, hManager, hCode]

theorem put_apply (text : String) (console : Console) :
    ∃ after, (setup surroundings).put () text console = (.ok (), after) ∧
      after.calls = console.calls := by
  by_cases hEmpty : text.isEmpty
  · exact ⟨console, if_pos hEmpty, rfl⟩
  · exact ⟨_, if_neg hEmpty, rfl⟩

theorem put_eq_ok (text : String) (console : Console) :
    ((setup surroundings).put () text console).1 = .ok () := by
  obtain ⟨after, hPut, _⟩ := put_apply text console
  rw [hPut]

/-- A maintenance command calls the package manager once. It fails if the call does and a trace is
asked for, and yields null otherwise. -/
theorem of_maintained {verbosity : Verbosity} {args : List String} {result : Except Failure Value}
    {after : Console} (h : Maintained (setup surroundings) () () verbosity args {} result after) :
    after.calls = [args] ∧
      ((∃ failure, result = .error failure) ∧ surroundings.manager ≠ some 0 ∧ verbosity = .trace ∨
        result = .ok .null ∧ ¬ (surroundings.manager ≠ some 0 ∧ verbosity = .trace)) := by
  have hCalls := calls_callManager surroundings args {}
  have hOk := callManager_eq_ok_iff surroundings args {}
  cases h with
  | done hInvoke =>
    change callManager surroundings args {} = _ at hInvoke
    rw [hInvoke] at hCalls hOk
    exact ⟨hCalls, .inr ⟨rfl, fun h => h.1 (hOk.mp rfl)⟩⟩
  | traced hInvoke hTrace =>
    change callManager surroundings args {} = _ at hInvoke
    rw [hInvoke] at hCalls hOk
    exact ⟨hCalls, .inl ⟨⟨_, rfl⟩, (fun hZero => nomatch hOk.mpr hZero), hTrace⟩⟩
  | shown hInvoke hTrace =>
    change callManager surroundings args {} = _ at hInvoke
    rw [hInvoke] at hCalls hOk
    refine ⟨?_, .inr ⟨rfl, fun h => hTrace h.2⟩⟩
    obtain ⟨after, hPut, hSame⟩ := put_apply _ _
    rw [hPut, hSame]
    exact hCalls

def exitCode : Except Failure Value → Nat
  | .ok _ => 0
  | .error _ => 1

theorem maintain_of_run {words : List String} {result : Except Failure Value}
    {after : Runtime parts Console}
    (h : (command (setup surroundings) (perform (setup surroundings) (nesting - 1)) (.named name)
        words).run.run
      runtime = some (result, after)) :
    ∃ stdout stderr, maintain surroundings runtime name words =
      { code := exitCode result, stdout, stderr, calls := after.world.calls.reverse } := by
  have hAnswer :
      perform (setup surroundings) nesting (Script.perform (.command (.named name) words)) =
        (command (setup surroundings) (perform (setup surroundings) (nesting - 1)) (.named name)
          words).run :=
    bind_pure _
  have hPerform := (congrArg (StateT.run · runtime) hAnswer).trans h
  unfold maintain
  dsimp only
  split
  · rename_i hNone
    cases hNone.symm.trans hPerform
  · rename_i hOk
    cases hOk.symm.trans hPerform
    exact ⟨_, _, rfl⟩
  · rename_i hError
    cases hError.symm.trans hPerform
    exact ⟨_, _, rfl⟩

/-- With any settings loaded, the words after the name of a maintenance command are read as its
command line. If they cannot be read, the package manager is not called and the exit code is 1. Else
it is called once, with the files in order after a verb, and the exit code is 1 exactly if there is
no such command or it fails, and a trace is asked for. -/
theorem run_maintenance {args words : List String}
    (hArgs : Arguments.read? args = some ⟨settings, .maintenance name words⟩)
    (hName : name = "asenna" ∨ name = "paivita") (hStart : start surroundings settings = .ok runtime) :
    (∀ failure, CommandLine.read words = .error failure →
      (run surroundings args).calls = [] ∧ (run surroundings args).code = 1) ∧
    ∀ line, CommandLine.read words = .ok line →
      (run surroundings args).calls = [verb name line.files :: line.files] ∧
      (run surroundings args).code =
        if surroundings.manager ≠ some 0 ∧ line.verbosity = .trace then 1 else 0 := by
  have hRun : run surroundings args = maintain surroundings runtime name words := by
    simp only [run, hArgs, hStart]
  obtain ⟨context, hWired, rfl⟩ := exists_start hStart
  have hFurnished := furnished_rooted surroundings hWired
  obtain ⟨className, task, hLong, hSelf, hFactory, hTask⟩ := exists_task surroundings hName
  have hResolves := (resolution_congr hWired _ _ _).trans hSelf
  rw [hRun]
  constructor
  · intro failure hRead
    have hCommand := run_command_of_read_error hFurnished hLong hResolves hFactory hRead
      (nesting - 2)
    obtain ⟨stdout, stderr, hOutcome⟩ := maintain_of_run hCommand
    rw [hOutcome]
    exact ⟨rfl, rfl⟩
  · intro line hRead
    obtain ⟨result, after, hCommand, hMaintained⟩ := run_command_of_read hFurnished hLong hResolves
      hFactory hRead hTask put_eq_ok (nesting - 2)
    obtain ⟨stdout, stderr, hOutcome⟩ := maintain_of_run hCommand
    obtain ⟨hOnce, hResult⟩ := of_maintained hMaintained
    rw [hOutcome, hOnce]
    refine ⟨rfl, ?_⟩
    show exitCode result = _
    rcases hResult with ⟨⟨failure, rfl⟩, hFails⟩ | ⟨rfl, hNot⟩
    · rw [if_pos hFails]
      rfl
    · rw [if_neg hNot]
      rfl

def failingSurroundings : Surroundings := { read := fun _ => .ok "kieli: fi", manager := some 3 }

theorem run_maintenance_trace :
    let outcome := run failingSurroundings ["-c", "oma.yaml", "asenna", "a/b", "-v", "--", "-q"]
    outcome.calls = [["require", "a/b", "-q"]] ∧ outcome.code = 1 := by
  have hArgs : Arguments.read? ["-c", "oma.yaml", "asenna", "a/b", "-v", "--", "-q"] =
      some ⟨some "oma.yaml", .maintenance "asenna" ["a/b", "-v", "--", "-q"]⟩ := by decide
  have hLoaded : (start failingSurroundings (some "oma.yaml")).isOk = true := by decide +kernel
  cases hStart : start failingSurroundings (some "oma.yaml") with
  | error failure =>
    rw [hStart] at hLoaded
    cases hLoaded
  | ok runtime =>
    exact (run_maintenance hArgs (.inl rfl) hStart).2 ⟨["a/b", "-q"], .trace⟩ (by rfl)

end Wiring.Cli
