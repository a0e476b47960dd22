import Wiring.Proofs.Runtime.Creation
import Wiring.Proofs.Runtime.Traced

/-! # Factory calls in progress

A run is traced: each act is noted with the runtime after it, and so are the call of a factory, its
return and what is refused. A call is in progress until it returns. At every moment the depth is the
number of calls in progress, and a construction is refused for want of depth exactly if these are as
many as allowed (`depth_counts_calls`). The trace is there also where the fuel does not last.
-/
namespace Wiring
set_option autoImplicit false

variable {P : Parts} {σ α β : Type}

inductive CallEvent where
  | acted
  | called (className : String)
  | returned (className : String)
  | refused (className : String) (failure : Failure)

structure CallMoment (P : Parts) (σ : Type) where
  event : CallEvent
  runtime : Runtime P σ

/-- The classes of the factories in progress after an event, the one called last first. -/
def CallEvent.calls (before : List String) : CallEvent → List String
  | acted => before
  | called className => className :: before
  | returned _ => before.tail
  | refused _ _ => before

def inProgress (before : List String) (moments : List (CallMoment P σ)) : List String :=
  moments.foldl (fun calls moment => moment.event.calls calls) before

theorem inProgress_append (before : List String) (first second : List (CallMoment P σ)) :
    inProgress before (first ++ second) = inProgress (inProgress before first) second :=
  List.foldl_append

abbrev Calling (P : Parts) (σ α : Type) := Traced P σ (CallMoment P σ) α

namespace Calling

open Traced

def noting (event : CallEvent) (act : Run P σ α) : Calling P σ α := fun runtime =>
  match act.run runtime with
  | none => (none, [])
  | some (value, after) => (some (value, after), [⟨event, after⟩])

def call (className : String) (factory : Calling P σ α) : Calling P σ α := do
  noting (.called className) (modify Runtime.deeper)
  let made ← factory
  noting (.returned className) (modify Runtime.shallower)
  return made

def refuse (className : String) (failure : Failure) : Calling P σ (Except Failure α) :=
  noting (.refused className failure) (pure (.error failure))

def engine (setup : Setup P σ) (inner : {α : Type} → Script P σ α → Calling P σ α) :
    Engine P σ (Calling P σ) where
  act := noting .acted
  inner := inner
  seed target := noting .acted (Runtime.seed target)
  construct := construct setup refuse call inner
  asking _ act := act

def answer (setup : Setup P σ) : (fuel : Nat) → (request : Request P σ) → Calling P σ request.Reply
  | 0, _ => noting .acted failure
  | fuel + 1, request =>
    (engine setup fun script => Engine.interpret (answer setup fuel) script).answer setup request

def trace (setup : Setup P σ) (fuel : Nat) (script : Script P σ α) : Calling P σ α :=
  Engine.interpret (answer setup fuel) script

end Calling

/-- The depth counts the calls in progress and keeps to the limit. What returns is what was called
last. As many calls as allowed are in progress where a construction is refused for want of depth,
and nowhere else where something is to be constructed. -/
structure CallMoment.Exact (setup : Setup P σ) (before : List String) (moment : CallMoment P σ) :
    Prop where
  depth : moment.runtime.depth = (moment.event.calls before).length
  limit : moment.runtime.depth ≤ setup.maxDepth
  called (className : String) : moment.event = .called className → before.length ≠ setup.maxDepth
  returned (className : String) : moment.event = .returned className →
    before.head? = some className
  refused (className : String) (failure : Failure) : moment.event = .refused className failure →
    (failure = .recursionLimit className setup.maxDepth ↔ before.length = setup.maxDepth)

def ExactFrom (setup : Setup P σ) : List String → List (CallMoment P σ) → Prop
  | _, [] => True
  | before, moment :: later =>
    moment.Exact setup before ∧ ExactFrom setup (moment.event.calls before) later

section Exact

variable {setup : Setup P σ} {before : List String}

theorem exactFrom_append {first second : List (CallMoment P σ)} :
    ExactFrom setup before (first ++ second) ↔
      ExactFrom setup before first ∧ ExactFrom setup (inProgress before first) second := by
  induction first generalizing before with
  | nil => exact ⟨fun h => ⟨trivial, h⟩, And.right⟩
  | cons moment rest ih =>
    show moment.Exact setup before ∧ ExactFrom setup _ (rest ++ second) ↔
      (moment.Exact setup before ∧ ExactFrom setup _ rest) ∧ ExactFrom setup _ second
    rw [ih, and_assoc]
    rfl

theorem exact_of_exactFrom {moments earlier later : List (CallMoment P σ)}
    {moment : CallMoment P σ} (h : ExactFrom setup before moments)
    (hMoments : moments = earlier ++ moment :: later) :
    moment.Exact setup (inProgress before earlier) := by
  subst hMoments
  exact (exactFrom_append.mp h).2.1

theorem exact_acted {runtime : Runtime P σ} (hDepth : runtime.depth = before.length)
    (hLimit : before.length ≤ setup.maxDepth) :
    (⟨.acted, runtime⟩ : CallMoment P σ).Exact setup before where
  depth := hDepth
  limit := hDepth ▸ hLimit
  called := nofun
  returned := nofun
  refused := nofun

theorem exact_refused {runtime : Runtime P σ} {className : String} {failure : Failure}
    (hDepth : runtime.depth = before.length) (hLimit : before.length ≤ setup.maxDepth)
    (hFailure : failure = .recursionLimit className setup.maxDepth ↔
      setup.maxDepth ≤ runtime.depth) :
    (⟨.refused className failure, runtime⟩ : CallMoment P σ).Exact setup before where
  depth := hDepth
  limit := hDepth ▸ hLimit
  called := nofun
  returned := nofun
  refused := by
    rintro _ _ ⟨⟩
    rw [hFailure, hDepth]
    exact ⟨Nat.le_antisymm hLimit, fun h => Nat.le_of_eq h.symm⟩

theorem exact_called {runtime : Runtime P σ} (className : String)
    (hDepth : runtime.depth = before.length) (hRoom : before.length < setup.maxDepth) :
    (⟨.called className, runtime.deeper⟩ : CallMoment P σ).Exact setup before where
  depth := congrArg (· + 1) hDepth
  limit := Nat.succ_le_of_lt (hDepth ▸ hRoom)
  called _ _ := Nat.ne_of_lt hRoom
  returned := nofun
  refused := nofun

theorem exact_returned {runtime : Runtime P σ} {className : String}
    (hDepth : runtime.depth = before.length) (hLimit : before.length ≤ setup.maxDepth) :
    (⟨.returned className, runtime⟩ : CallMoment P σ).Exact setup (className :: before) where
  depth := hDepth
  limit := hDepth ▸ hLimit
  called := nofun
  returned := by
    rintro _ ⟨⟩
    rfl
  refused := nofun

end Exact

namespace Calling

open Traced

/-- Every moment of the trace is exact, and at its end the same calls are in progress again. -/
structure OrderlyFrom (setup : Setup P σ) (before : List String)
    (traced : Option (α × Runtime P σ) × List (CallMoment P σ)) : Prop where
  exact : ExactFrom setup before traced.2
  settled (value : α) (after : Runtime P σ) : traced.1 = some (value, after) →
    after.depth = before.length ∧ inProgress before traced.2 = before

def Orderly (setup : Setup P σ) (act : Calling P σ α) : Prop :=
  ∀ runtime before, runtime.depth = before.length → before.length ≤ setup.maxDepth →
    OrderlyFrom setup before (act runtime)

variable {setup : Setup P σ}

theorem plain_noting (event : CallEvent) (act : Run P σ α) : (noting event act).plain = act := by
  funext runtime
  show (noting event act runtime).1 = act.run runtime
  rw [noting]
  cases act.run runtime <;> rfl

theorem orderlyFrom_single {before : List String} {event : CallEvent} {value : α}
    {runtime : Runtime P σ} (hExact : (⟨event, runtime⟩ : CallMoment P σ).Exact setup before)
    (hCalls : event.calls before = before) :
    OrderlyFrom setup before (some (value, runtime), [⟨event, runtime⟩]) where
  exact := ⟨hExact, trivial⟩
  settled := by
    rintro _ _ ⟨⟩
    have hDepth := hExact.depth
    rw [hCalls] at hDepth
    exact ⟨hDepth, hCalls⟩

theorem orderly_pure (value : α) : Orderly setup (pure value) := by
  intro runtime before hDepth _
  refine ⟨trivial, ?_⟩
  rintro _ _ ⟨⟩
  exact ⟨hDepth, rfl⟩

theorem orderly_bind {first : Calling P σ α} {next : α → Calling P σ β}
    (hFirst : Orderly setup first) (hNext : ∀ value, Orderly setup (next value)) :
    Orderly setup (first >>= next) := by
  intro runtime before hDepth hLimit
  obtain ⟨hExact, hAfter⟩ := hFirst runtime before hDepth hLimit
  rw [bind_apply]
  rcases hRun : first runtime with ⟨_ | ⟨value, between⟩, moments⟩
  · rw [hRun] at hExact
    exact ⟨hExact, nofun⟩
  · rw [hRun] at hExact hAfter
    obtain ⟨hBetween, hSame⟩ := hAfter value between rfl
    obtain ⟨hLater, hLast⟩ := hNext value between before hBetween hLimit
    refine ⟨exactFrom_append.mpr ⟨hExact, ?_⟩, fun result after hResult => ?_⟩
    · rwa [hSame]
    · obtain ⟨hDone, hCalls⟩ := hLast result after hResult
      exact ⟨hDone, by rw [inProgress_append, hSame, hCalls]⟩

theorem orderly_acted {act : Run P σ α} (h : Runtime.Level act) :
    Orderly setup (noting .acted act) := by
  intro runtime before hDepth hLimit
  rw [noting]
  cases hRun : act.run runtime with
  | none => exact ⟨trivial, nofun⟩
  | some pair =>
    have hAfter : pair.2.depth = before.length := (h runtime pair.1 pair.2 hRun).trans hDepth
    exact orderlyFrom_single (exact_acted hAfter hLimit) rfl

theorem call_apply (className : String) (factory : Calling P σ α) (runtime : Runtime P σ) :
    call className factory runtime =
      match factory runtime.deeper with
      | (none, moments) => (none, ⟨.called className, runtime.deeper⟩ :: moments)
      | (some (made, after), moments) =>
        (some (made, after.shallower), ⟨.called className, runtime.deeper⟩ ::
          (moments ++ [⟨.returned className, after.shallower⟩])) := by
  let leave (made : α) : Calling P σ α := do
    noting (.returned className) (modify Runtime.shallower)
    return made
  show (((factory >>= leave) runtime.deeper).1,
    ⟨.called className, runtime.deeper⟩ :: ((factory >>= leave) runtime.deeper).2) = _
  rw [bind_apply]
  rcases factory runtime.deeper with ⟨_ | ⟨made, after⟩, moments⟩ <;> rfl

theorem orderlyFrom_call {factory : Calling P σ α} (hFactory : Orderly setup factory)
    (className : String) {runtime : Runtime P σ} {before : List String}
    (hDepth : runtime.depth = before.length) (hRoom : before.length < setup.maxDepth) :
    OrderlyFrom setup before (call className factory runtime) := by
  have hCalled := exact_called className hDepth hRoom
  obtain ⟨hExact, hAfter⟩ :=
    hFactory runtime.deeper (className :: before) (congrArg (· + 1) hDepth) hRoom
  rw [call_apply]
  rcases hRun : factory runtime.deeper with ⟨_ | ⟨made, after⟩, moments⟩
  · rw [hRun] at hExact
    exact ⟨⟨hCalled, hExact⟩, nofun⟩
  · rw [hRun] at hExact hAfter
    have hMade : after.depth = before.length + 1 := (hAfter made after rfl).1
    have hCalls : inProgress (className :: before) moments = className :: before :=
      (hAfter made after rfl).2
    have hShallower : after.shallower.depth = before.length := by
      rw [Runtime.shallower, hMade, Nat.add_sub_cancel]
    refine ⟨⟨hCalled, exactFrom_append.mpr ⟨hExact, ?_⟩⟩, ?_⟩
    · show ExactFrom setup (inProgress (className :: before) moments) [_]
      rw [hCalls]
      exact ⟨exact_returned hShallower (Nat.le_of_lt hRoom), trivial⟩
    · rintro _ _ ⟨⟩
      refine ⟨hShallower, ?_⟩
      show inProgress (className :: before) (moments ++ [_]) = before
      rw [inProgress_append, hCalls]
      rfl

theorem orderly_construct {inner : {α : Type} → Script P σ α → Calling P σ α}
    (hInner : ∀ {α : Type} (script : Script P σ α), Orderly setup (inner script))
    (className : String) (args : List Value) :
    Orderly setup (construct setup refuse call inner className args) := by
  intro runtime before hDepth hLimit
  rw [construct]
  split
  · rename_i hFull
    exact orderlyFrom_single (exact_refused hDepth hLimit ⟨fun _ => hFull, fun _ => rfl⟩) rfl
  · rename_i hSpare
    cases setup.catalog.get? className with
    | none =>
      have hOther : Failure.unknownComponent className ≠
          .recursionLimit className setup.maxDepth := by
        intro hSame
        cases hSame
      exact orderlyFrom_single (exact_refused hDepth hLimit (iff_of_false hOther hSpare)) rfl
    | some factory =>
      have hRoom : before.length < setup.maxDepth := by
        rw [hDepth] at hSpare
        exact Nat.lt_of_not_le hSpare
      exact orderlyFrom_call (hInner _) className hDepth hRoom

theorem plain_call (className : String) (factory : Calling P σ α) (runtime : Runtime P σ) :
    (call className factory).plain.run runtime =
      (factory.plain.run runtime.deeper).map fun pair => (pair.1, pair.2.shallower) := by
  show (call className factory runtime).1 = (factory runtime.deeper).1.map _
  rw [call_apply]
  rcases factory runtime.deeper with ⟨_ | ⟨made, after⟩, moments⟩ <;> rfl

def counting (setup : Setup P σ) : Simulation P σ (Calling P σ) where
  rel act plain := act.plain = plain ∧ Orderly setup act
  done value := ⟨rfl, orderly_pure value⟩
  step hFirst hNext := ⟨erasing.step hFirst.1 fun value => (hNext value).1,
    orderly_bind hFirst.2 fun value => (hNext value).2⟩

theorem counting_answer (setup : Setup P σ) (fuel : Nat) (request : Request P σ) :
    (counting setup).rel (answer setup fuel request) (Runtime.answer setup fuel request) := by
  induction fuel generalizing request with
  | zero => exact ⟨plain_noting _ _, orderly_acted nofun⟩
  | succ fuel ih =>
    have hScript {β : Type} (script : Script P σ β) :
        (counting setup).rel (Engine.interpret (answer setup fuel) script)
          (Runtime.perform setup fuel script) := Simulation.interpret ih script
    have hFollows : (counting setup).Follows setup
        (engine setup fun script => Engine.interpret (answer setup fuel) script)
        (Runtime.perform setup fuel) :=
      { act := fun hLevel => ⟨plain_noting _ _, orderly_acted hLevel⟩
        script := hScript
        seed := fun target => ⟨plain_noting _ _, orderly_acted (Runtime.level_seed target)⟩
        construct := fun className args =>
          ⟨plain_construct (fun _ _ => plain_noting _ _) plain_call
              (fun script => (hScript script).1) className args,
            orderly_construct (fun script => (hScript script).2) className args⟩
        asking := fun _ _ _ => id }
    exact hFollows.answer request

end Calling

namespace Runtime

open Calling

/-- If the depth counts the calls in progress when a run starts, every moment of the run is exact,
and so is the depth after each request: it is what it was before. -/
theorem depth_counts_calls {setup : Setup P σ} {runtime : Runtime P σ} {before : List String}
    (hDepth : runtime.depth = before.length) (hLimit : before.length ≤ setup.maxDepth) (fuel : Nat)
    (script : Script P σ α) :
    (trace setup fuel script runtime).1 = (perform setup fuel script).run runtime ∧
    (∀ earlier moment later,
      (trace setup fuel script runtime).2 = earlier ++ moment :: later →
        moment.Exact setup (inProgress before earlier)) ∧
    ∀ (request : Request P σ) reply after,
      (answer setup fuel request).run runtime = some (reply, after) →
        after.depth = runtime.depth := by
  have hTrace : (counting setup).rel (trace setup fuel script) (perform setup fuel script) :=
    Simulation.interpret (counting_answer setup fuel) script
  refine ⟨congrFun hTrace.1 runtime, fun earlier moment later hMoments => ?_, ?_⟩
  · exact exact_of_exactFrom (hTrace.2 runtime before hDepth hLimit).exact hMoments
  · intro request reply after hReply
    obtain ⟨hPlain, hOrderly⟩ := counting_answer setup fuel request
    rw [← hPlain] at hReply
    rw [((hOrderly runtime before hDepth hLimit).settled reply after hReply).1, hDepth]

/-- Four constructions are begun, and the last is refused, while three calls are in progress. -/
theorem depth_counts_calls_circular :
    let runtime : Runtime ⟨Empty, Empty, Empty⟩ Unit := { world := () }
    let before : List String := []
    let script := (Script.create "App\\Alku" []).run
    let traced := trace circularSetup 4 script runtime
    runtime.depth = before.length ∧ before.length ≤ circularSetup.maxDepth ∧
    traced.2.map (·.event) =
      [.acted, .called "App\\Alku", .acted, .called "App\\Loppu", .acted, .called "App\\Alku",
        .acted, .refused "App\\Loppu" (.recursionLimit "App\\Loppu" 3), .returned "App\\Alku",
        .returned "App\\Loppu", .returned "App\\Alku"] ∧
    traced.1 = (perform circularSetup 4 script).run runtime ∧
    (∀ earlier moment later, traced.2 = earlier ++ moment :: later →
      moment.Exact circularSetup (inProgress before earlier)) ∧
    ∀ (request : Request ⟨Empty, Empty, Empty⟩ Unit) reply after,
      (answer circularSetup 4 request).run runtime = some (reply, after) →
        after.depth = runtime.depth := by
  intro runtime before script traced
  have hDepth : runtime.depth = before.length := rfl
  have hLimit : before.length ≤ circularSetup.maxDepth := Nat.zero_le 3
  exact ⟨hDepth, hLimit, rfl, depth_counts_calls hDepth hLimit 4 script⟩

end Runtime
end Wiring
