import Wiring.Proofs.Runtime.Asking
import Wiring.Proofs.Runtime.Entering

/-! # Contexts below a nested application

A script is balanced if it pushes and pops contexts only by entering them. While a balanced script
runs, whatever factories and programs nest in it, the contexts below the active one stay as they
are. So a nested application leaves the stack that it was started from.
-/
namespace Wiring
set_option autoImplicit false

variable {P : Parts} {σ α β : Type}

def Request.KeepsStack : Request P σ → Prop
  | push _ => False
  | pop => False
  | _ => True

namespace Script

inductive Balanced : {α : Type} → Script P σ α → Prop
  | done {α : Type} (result : α) : Balanced (.done result)
  | ask {α : Type} (request : Request P σ) (next : request.Reply → Script P σ α) :
    request.KeepsStack → (∀ reply, Balanced (next reply)) → Balanced (.ask request next)
  | enter {α β : Type} (context : Context) (body : Script P σ α) (next : α → Script P σ β) :
    Balanced body → (∀ result, Balanced (next result)) → Balanced (enter context body >>= next)

theorem balanced_perform {request : Request P σ} (h : request.KeepsStack) :
    (perform request).Balanced :=
  .ask request _ h fun reply => .done reply

theorem balanced_bind {script : Script P σ α} {next : α → Script P σ β} (hScript : script.Balanced)
    (hNext : ∀ result, (next result).Balanced) : (script >>= next).Balanced := by
  induction hScript with
  | done result => exact hNext result
  | ask request reply hRequest _ ih => exact .ask request _ hRequest fun answer => ih answer hNext
  | enter context body reply hBody _ _ ih =>
    rw [LawfulMonad.bind_assoc]
    exact .enter context body _ hBody fun result => ih result hNext

theorem balanced_enter {context : Context} {body : Script P σ α} (h : body.Balanced) :
    (enter context body).Balanced := by
  have hEnter := Balanced.enter context body Script.done h .done
  rwa [show enter context body >>= Script.done = enter context body from bind_done _] at hEnter

theorem balanced_bindAttempt {attempt : Attempt P σ α} {next : α → Attempt P σ β}
    (hAttempt : attempt.run.Balanced) (hNext : ∀ value, (next value).run.Balanced) :
    (attempt >>= next).run.Balanced := by
  refine balanced_bind hAttempt fun result => ?_
  cases result with
  | ok value => exact hNext value
  | error failure => exact .done _

theorem balanced_sure {script : Script P σ α} (h : script.Balanced) :
    (sure script).run.Balanced :=
  balanced_bind h fun _ => .done _

theorem balanced_print (sink : P.Sink) (words : List Value) :
    (print sink words : Attempt P σ Unit).run.Balanced := by
  refine balanced_bindAttempt (balanced_sure (balanced_perform trivial)) fun outcome => ?_
  cases outcome <;> exact .done _

theorem balanced_packageManager (name : String) :
    (packageManager name : Attempt P σ (Option P.Runner)).run.Balanced :=
  balanced_bindAttempt (balanced_perform trivial) fun _ => .done _

theorem balanced_manage (runner : Option P.Runner) (args : List String) :
    (manage runner args : Attempt P σ Unit).run.Balanced := by
  cases runner with
  | none => exact .done _
  | some runner => exact balanced_perform trivial

theorem balanced_maintain (args : List String) :
    (Task.maintain args : Attempt P σ Value).run.Balanced :=
  balanced_bindAttempt (balanced_packageManager _) fun runner =>
    balanced_bindAttempt (balanced_manage runner args) fun _ => .done _

end Script

/-- Factories and programs are balanced. -/
structure Setup.Balanced (setup : Setup P σ) : Prop where
  factory : ∀ className factory, setup.catalog.get? className = some factory →
    ∀ args, (factory args).run.Balanced
  program : ∀ program args, ((setup.program program).body args).run.Balanced

theorem Setup.Balanced.task {setup : Setup P σ} (h : setup.Balanced) (task : Task P)
    (args : List String) : ((setup.task task).body args).run.Balanced := by
  cases task with
  | install => exact Script.balanced_maintain _
  | update => exact Script.balanced_maintain _
  | program program => exact h.program program args

namespace Law

open Traced Watched

/-- The contexts below the active one are below a context in and after a run. -/
def nesting : Law P σ where
  rel before moments after := ∀ own below, before.stack = own :: below →
    (∀ moment ∈ moments, ∃ inner, inner :: below <:+ moment.runtime.stack) ∧
      ∀ runtime ∈ after, ∃ own, runtime.stack = own :: below
  refl runtime own below hStack := ⟨nofun, by rintro _ ⟨⟩; exact ⟨own, hStack⟩⟩
  trans {before between after first second} hFirst hSecond own below hStack := by
    obtain ⟨hBefore, hBetween⟩ := hFirst own below hStack
    obtain ⟨inner, hInner⟩ := hBetween between rfl
    obtain ⟨hAfter, hLast⟩ := hSecond inner below hInner
    exact ⟨List.forall_mem_append.mpr ⟨hBefore, hAfter⟩, hLast⟩

theorem nesting_here {runtime after : Runtime P σ} {moments : List (Moment P σ)}
    (h : ∀ moment ∈ moments, moment.runtime.stack = runtime.stack)
    (hAfter : after.stack = runtime.stack) : nesting.rel runtime moments (some after) := by
  intro own below hStack
  refine ⟨fun moment hMem => ⟨own, [], ?_⟩, by rintro _ ⟨⟩; exact ⟨own, hAfter.trans hStack⟩⟩
  exact ((h moment hMem).trans hStack).symm

theorem nesting_quiet {act : Run P σ α} (h : Runtime.Sparing act) : nesting.Obeys (quiet act) := by
  refine obeys_quiet (fun _ _ _ _ => ⟨nofun, nofun⟩) ?_
  intro runtime value after hRun own below hStack
  refine ⟨nofun, ?_⟩
  rintro _ ⟨⟩
  rcases (h runtime value after hRun).stack with hSame | ⟨context, hTop⟩
  · exact ⟨own, hSame.trans hStack⟩
  · rw [hStack] at hTop
    exact ⟨context, hTop⟩

theorem nesting_steps : (nesting : Law P σ).Steps where
  asked _ := nesting_here (List.forall_mem_singleton.mpr rfl) rfl
  started _ _ := nesting_here (List.forall_mem_singleton.mpr rfl) rfl
  deeper _ := nesting_here nofun rfl
  shallower _ := nesting_here nofun rfl
  quiet := nesting_quiet
  plant _ _ := nesting_here (List.forall_mem_singleton.mpr rfl) rfl

theorem nesting_asking {setup : Setup P σ} {inner : {α : Type} → Script P σ α → Watched P σ α} :
    nesting.Asking setup inner where
  shared _ := nesting_here (by simp) rfl
  sharedShort _ _ _ _ := nesting_here (by simp) rfl
  missing _ := nesting_here (by simp) rfl
  sharedMeanwhile _ := nesting_here (by simp) rfl
  made {runtime after name suffix className made moments} _ _ _ hRel _ := by
    have hSought : nesting.rel runtime [⟨.sought className, runtime⟩] (some runtime) :=
      nesting_here (by simp) rfl
    have hMade : nesting.rel after
        [⟨.answered className made, after.withShared className made⟩]
        (some (after.withShared className made)) :=
      nesting_here (List.forall_mem_singleton.mpr rfl) rfl
    exact nesting.trans (nesting.trans hSought hRel) hMade

section Scripts

variable {setup : Setup P σ} {inner : {α : Type} → Script P σ α → Watched P σ α}

variable (setup inner) in
/-- What runs in an entered context runs above the stack that was there before, which is the whole
stack after it. -/
theorem stack_of_enter (context : Context) {body : Watched P σ α} (hBody : nesting.Obeys body)
    (runtime : Runtime P σ) :
    let entered := (engine setup inner).enter context body runtime
    (∀ moment ∈ entered.2, ∃ inner, inner :: runtime.stack <:+ moment.runtime.stack) ∧
      ∀ after ∈ entered.1.map (·.2), after.stack = runtime.stack := by
  obtain ⟨hMoments, hLeft⟩ := hBody (runtime.pushing context) context runtime.stack rfl
  dsimp only
  rw [enter_apply]
  refine ⟨hMoments, fun after hMem => ?_⟩
  rw [Option.map_map] at hMem
  obtain ⟨⟨result, left⟩, hResult, rfl⟩ := Option.map_eq_some_iff.mp hMem
  obtain ⟨inner, hInner⟩ := hLeft left (Option.map_eq_some_iff.mpr ⟨_, hResult, rfl⟩)
  exact congrArg List.tail hInner

theorem nesting_enter {context : Context} {body : Watched P σ α} (hBody : nesting.Obeys body) :
    nesting.Obeys ((engine setup inner).enter context body) := by
  intro runtime own below hStack
  have hEntered := stack_of_enter setup inner context hBody runtime
  rw [hStack] at hEntered
  refine ⟨fun moment hMem => ?_, fun after hMem => ⟨own, hEntered.2 after hMem⟩⟩
  obtain ⟨inner, hInner⟩ := hEntered.1 moment hMem
  exact ⟨own, (List.suffix_cons inner _).trans hInner⟩

theorem watch_enter (setup : Setup P σ) (fuel : Nat) (context : Context) (body : Script P σ α) :
    watch setup (fuel + 1) (Script.enter context body) = (do
      note .asked
      (engine setup (watch setup fuel)).enter context (do
        let result ← watch setup (fuel + 1) body
        note .asked
        return result)) := by
  let last (result : α) : Script P σ α := Script.perform .pop >>= fun _ => .done result
  show watch setup (fuel + 1) (.ask (.push context) fun _ => body >>= last) = _
  rw [watch_ask]
  refine bind_congr fun _ => ?_
  show (quiet (Runtime.push context) >>= fun _ => watch setup (fuel + 1) (body >>= last)) = _
  refine bind_congr fun _ => ?_
  rw [watch, Engine.interpret_bind, bind_assoc]
  rfl

theorem nesting_answer (hSetup : setup.Balanced) {fuel : Nat}
    (hWatch : ∀ {α : Type} {script : Script P σ α}, script.Balanced →
      nesting.Obeys (watch setup fuel script))
    (request : Request P σ) (hRequest : request.KeepsStack) :
    nesting.Obeys (answer setup (fuel + 1) request) := by
  have hConstruct (className : String) (args : List Value) :
      nesting.Obeys (construct setup refuse start (watch setup fuel) className args) :=
    obeys_construct nesting_steps
      (fun args hFactory => hWatch (hSetup.factory _ _ hFactory args)) className args
  have hCarries : nesting.simulation.Carries setup (engine setup (watch setup fuel))
      (Runtime.perform setup fuel) :=
    { act := nesting_quiet
      seed := nesting_steps.seed
      construct := hConstruct
      obtain := nesting_asking.obeys_obtain nesting_steps fun className => hConstruct className []
      enter := fun context task args => nesting_enter (hWatch (hSetup.task task args))
      print := fun sink words => hWatch (Script.balanced_print sink words) }
  refine hCarries.answer request ?_ ?_
  · rintro context rfl
    exact hRequest.elim
  · rintro rfl
    exact hRequest.elim

/-- The contexts below the active one stay as they are while a balanced script runs. -/
theorem nesting_watch (hSetup : setup.Balanced) (fuel : Nat) {script : Script P σ α}
    (hScript : script.Balanced) : nesting.Obeys (watch setup fuel script) := by
  suffices ∀ {α : Type} {script : Script P σ α}, script.Balanced →
      nesting.Obeys (watch setup fuel script) from this hScript
  induction fuel with
  | zero =>
    intro α script _
    have hNothing (request : Request P σ) : nesting.Obeys (answer setup 0 request) :=
      fun _ _ _ _ => ⟨nofun, nofun⟩
    exact obeys_interpret nesting_steps.asked hNothing script
  | succ fuel ih =>
    intro α script hScript
    induction hScript with
    | done result => exact obeys_pure result
    | ask request next hRequest _ ihNext =>
      rw [watch_ask]
      refine obeys_bind nesting_steps.asked fun _ => ?_
      exact obeys_bind (nesting_answer hSetup ih request hRequest) ihNext
    | enter context body next _ _ ihBody ihNext =>
      have hBody : nesting.Obeys (do
          let result ← watch setup (fuel + 1) body
          note .asked
          return result) :=
        obeys_bind ihBody fun result => obeys_bind nesting_steps.asked fun _ => obeys_pure result
      rw [watch, Engine.interpret_bind]
      refine obeys_bind ?_ ihNext
      rw [← watch, watch_enter]
      exact obeys_bind nesting_steps.asked fun _ => nesting_enter hBody

end Scripts

/-- All that is asked for is asked above the contexts that were there before a run, and these are
the whole stack after it. -/
def enclosing : Law P σ where
  rel before moments after := before.stack ≠ [] →
    (∀ moment ∈ moments, moment.event = .asked →
      ∃ inner, inner :: before.stack <:+ moment.runtime.stack) ∧
    ∀ runtime ∈ after, runtime.stack = before.stack
  refl runtime _ := ⟨nofun, by rintro _ ⟨⟩; rfl⟩
  trans {before between after first second} hFirst hSecond hStack := by
    obtain ⟨hBefore, hBetween⟩ := hFirst hStack
    have hSame : between.stack = before.stack := hBetween between rfl
    obtain ⟨hAfter, hLast⟩ := hSecond (hSame ▸ hStack)
    rw [hSame] at hAfter hLast
    exact ⟨List.forall_mem_append.mpr ⟨hBefore, hAfter⟩, hLast⟩

theorem enclosing_here {runtime after : Runtime P σ} {moments : List (Moment P σ)}
    (h : ∀ moment ∈ moments, moment.event ≠ .asked)
    (hAfter : runtime.stack ≠ [] → after.stack = runtime.stack) :
    enclosing.rel runtime moments (some after) := by
  intro hStack
  refine ⟨fun moment hMem hAsked => absurd hAsked (h moment hMem), ?_⟩
  rintro _ ⟨⟩
  exact hAfter hStack

section Tasks

variable {setup : Setup P σ} {inner : {α : Type} → Script P σ α → Watched P σ α}

theorem enclosing_enter {context : Context} {body : Watched P σ α} (hBody : nesting.Obeys body) :
    enclosing.Obeys ((engine setup inner).enter context body) := by
  intro runtime _
  obtain ⟨hMoments, hAfter⟩ := stack_of_enter setup inner context hBody runtime
  exact ⟨fun moment hMem _ => hMoments moment hMem, hAfter⟩

theorem enclosing_seed (target : Target P) : (enclosing : Law P σ).Obeys (seed target) := by
  have hPlant (held : Instance P) : (enclosing : Law P σ).Obeys (plant held) := fun runtime =>
    enclosing_here (List.forall_mem_singleton.mpr nofun) fun _ => rfl
  cases target with
  | named name => exact obeys_pure name
  | ready held => exact hPlant held
  | fresh component =>
    exact obeys_bind (fun runtime => enclosing_here nofun fun _ => rfl) hPlant

theorem enclosing_execute (hSetup : setup.Balanced) (fuel : Nat) (task : Task P)
    (args : List String) :
    enclosing.Obeys ((engine setup (watch setup fuel)).execute setup task args).run := by
  have hCurrent : (enclosing : Law P σ).Obeys (quiet Runtime.current) := by
    intro runtime
    have hRun : (quiet Runtime.current : Watched P σ Context) runtime =
        (some (runtime.active, runtime.withActive runtime.active), []) :=
      congrArg (·, []) (Runtime.run_current runtime)
    rw [hRun]
    refine enclosing_here (List.forall_mem_nil _) fun hStack => ?_
    obtain ⟨own, below, hOwn⟩ := List.exists_cons_of_ne_nil hStack
    simp [Runtime.withActive, Runtime.active, hOwn]
  have hGet : (enclosing : Law P σ).Obeys (quiet get) := fun runtime =>
    enclosing_here (List.forall_mem_nil _) fun _ => rfl
  have hEnter (context : Context) (task : Task P) (args : List String) :
      enclosing.simulation.rel
        ((engine setup (watch setup fuel)).enter context
          (watch setup fuel ((setup.task task).body args).run))
        (Runtime.enter context (Runtime.perform setup fuel ((setup.task task).body args).run)) :=
    enclosing_enter (nesting_watch hSetup fuel (hSetup.task task args))
  show enclosing.simulation.rel ((engine setup (watch setup fuel)).execute setup task args).run
    (Runtime.execute setup (Runtime.perform setup fuel) task args).run
  exact Simulation.execute hCurrent hGet enclosing_seed hEnter task args

end Tasks

end Law

/-- Once a script has asked for its first request, all that is asked for is asked above the contexts
that were there before, and these are the whole stack in the end. -/
structure Runtime.Encloses (setup : Setup P σ) (fuel : Nat) (script : Script P σ α)
    (runtime : Runtime P σ) : Prop where
  within : ∀ moment ∈ (history setup fuel script runtime).tail, moment.event = .asked →
    ∃ inner, inner :: runtime.stack <:+ moment.runtime.stack
  restored : ∀ result after, (perform setup fuel script).run runtime = some (result, after) →
    after.stack = runtime.stack

theorem Runtime.encloses_of_obeys {setup : Setup P σ} {fuel : Nat} {script : Script P σ α}
    {runtime : Runtime P σ} (hStack : runtime.stack ≠ []) {rest : Watched P σ α}
    (hScript : Watched.watch setup fuel script = Watched.note .asked >>= fun _ => rest)
    (hRest : Law.enclosing.Obeys rest) : Encloses setup fuel script runtime := by
  obtain ⟨hMoments, hAfter⟩ := hRest runtime hStack
  refine ⟨fun moment hMem => hMoments moment ?_, fun result after hRun => hAfter after ?_⟩
  · rwa [history, hScript] at hMem
  · rw [← Watched.plain_watch, hScript] at hRun
    exact Option.map_eq_some_iff.mpr ⟨_, hRun, rfl⟩

/-- A program and a script within a context of its own leave the contexts below them alone, whatever
factories, programs and commands nest in them and whatever fails. -/
theorem Runtime.encloses_applications {setup : Setup P σ} (hSetup : setup.Balanced)
    {runtime : Runtime P σ} (hStack : runtime.stack ≠ []) (fuel : Nat) :
    (∀ task args, Encloses setup fuel (Script.perform (.run (.ready task) args)) runtime) ∧
    ∀ {β : Type} context (body : Script P σ β), body.Balanced →
      Encloses setup fuel (Script.enter context body) runtime := by
  cases fuel with
  | zero =>
    have hFailure {α β : Type} (next : α → Watched P σ β) :
        Law.enclosing.Obeys (Traced.quiet failure >>= next) := fun _ _ => ⟨nofun, nofun⟩
    exact ⟨fun task args => encloses_of_obeys hStack (Watched.watch_ask ..) (hFailure _),
      fun context body _ => encloses_of_obeys hStack (Watched.watch_ask ..) (hFailure _)⟩
  | succ fuel =>
    constructor
    · intro task args
      refine encloses_of_obeys hStack (Watched.watch_ask ..) ?_
      exact Law.obeys_bind (Law.enclosing_execute hSetup fuel task args) fun _ => Law.obeys_pure _
    · intro β context body hBody
      refine encloses_of_obeys hStack (Law.watch_enter setup fuel context body) ?_
      refine Law.enclosing_enter ?_
      refine Law.obeys_bind (Law.nesting_watch hSetup (fuel + 1) hBody) fun result => ?_
      exact Law.obeys_bind Law.nesting_steps.asked fun _ => Law.obeys_pure result

def failingSetup : Setup ⟨Empty, Empty, Unit⟩ Unit where
  catalog := Table.ofList [("Savoksi\\Kieli", fun _ => do
    Script.sure (Script.perform (.register "oma" (some (.named "Savoksi\\Kieli"))))
    Script.sure (Script.perform (.instantiate ⟨"Savoksi\\Kieli", .plain⟩)))]
  write := nofun
  invoke := nofun
  program _ := {
    body := fun _ => do
      Script.sure (Script.perform (.setConfig "kieli" (.string "sv")))
      let _ ← Script.sure (Script.enter {} (Script.get "kieli" "").run)
      throw { kind := .unavailable, message := "no language" } }

theorem balanced_failingSetup : failingSetup.Balanced where
  factory className factory hFactory args := by
    have hEntry : (className, factory) ∈ failingSetup.catalog.entries :=
      Entries.mem_of_get? hFactory
    cases List.mem_singleton.mp hEntry
    refine Script.balanced_bindAttempt (Script.balanced_sure (Script.balanced_perform trivial))
      fun _ => ?_
    exact Script.balanced_sure (Script.balanced_perform trivial)
  program program args := by
    refine Script.balanced_bindAttempt (Script.balanced_sure (Script.balanced_perform trivial))
      fun _ => ?_
    refine Script.balanced_bindAttempt (Script.balanced_sure (Script.balanced_enter ?_))
      fun _ => .done _
    exact Script.balanced_perform trivial

theorem Runtime.encloses_applications_failing :
    let runtime : Runtime ⟨Empty, Empty, Unit⟩ Unit := { stack := [{}], world := () }
    let script : Script ⟨Empty, Empty, Unit⟩ Unit (Except Failure Value) :=
      Script.perform (.run (.ready (.program ())) [])
    failingSetup.Balanced ∧ runtime.stack ≠ [] ∧ Encloses failingSetup 3 script runtime ∧
      ∃ result after, (perform failingSetup 3 script).run runtime = some (result, after) ∧
        after.stack = runtime.stack := by
  intro runtime script
  have hStack : runtime.stack ≠ [] := List.cons_ne_nil _ _
  obtain ⟨hRun, _⟩ := encloses_applications balanced_failingSetup hStack 3
  have hEncloses : Encloses failingSetup 3 script runtime := hRun (.program ()) []
  have hEnds : ((perform failingSetup 3 script).run runtime).isSome = true := by decide +kernel
  obtain ⟨⟨result, after⟩, hAfter⟩ := Option.isSome_iff_exists.mp hEnds
  exact ⟨balanced_failingSetup, hStack, hEncloses, result, after, hAfter,
    hEncloses.restored _ _ hAfter⟩

end Wiring
