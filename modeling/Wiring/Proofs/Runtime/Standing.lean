import Wiring.Proofs.Context.Leaves
import Wiring.Proofs.Runtime.Resolution

/-! # What is done aside

Much of what a script asks for has nothing to do with components and the contexts below the active
one. It is answered at any rate, and the runtime is spared: factories nest as deep as before, the
same instances are shared, and the contexts below are the same.
-/
namespace Wiring
set_option autoImplicit false

variable {P : Parts} {σ α β : Type}

/-- The request asks for no component and changes neither the stack nor a registration. -/
def Request.Aside : Request P σ → Prop
  | push _ => False
  | pop => False
  | create _ _ => False
  | get _ _ => False
  | register _ _ => False
  | run _ _ => False
  | command _ _ => False
  | _ => True

namespace Runtime

/-- Nothing but the active context, the instances made and the world has changed. -/
structure Spared (before after : Runtime P σ) : Prop where
  depth : after.depth = before.depth
  singletons : after.singletons = before.singletons
  stack : after.stack = before.stack ∨ ∃ context, after.stack = context :: before.stack.tail

theorem Spared.refl (runtime : Runtime P σ) : Spared runtime runtime := ⟨rfl, rfl, .inl rfl⟩

theorem Spared.trans {before between after : Runtime P σ} (hFirst : Spared before between)
    (hSecond : Spared between after) : Spared before after := by
  refine ⟨hSecond.depth.trans hFirst.depth, hSecond.singletons.trans hFirst.singletons, ?_⟩
  rcases hSecond.stack with hSame | ⟨context, hTop⟩
  · rw [hSame]
    exact hFirst.stack
  · refine .inr ⟨context, ?_⟩
    rcases hFirst.stack with hSame | ⟨replaced, hBetween⟩
    · rw [hTop, hSame]
    · rw [hTop, hBetween, List.tail_cons]

theorem spared_withActive (runtime : Runtime P σ) (context : Context) :
    Spared runtime (runtime.withActive context) := ⟨rfl, rfl, .inr ⟨context, rfl⟩⟩

theorem resolution_congr {context other : Context} (h : other.registrations = context.registrations)
    (setup : Setup P σ) (name suffix : String) :
    resolution setup other name suffix = resolution setup context name suffix := by
  simp only [resolution, Context.registration?, h]

theorem run_setConfigAll (settings : Value) (runtime : Runtime P σ) :
    ∃ reply after, (setConfigAll settings).run.run runtime = some (reply, after) ∧
      Spared runtime after ∧ after.active.registrations = runtime.active.registrations := by
  rw [setConfigAll, run_bind_of_ok (run_sure (run_current runtime))]
  cases hChanged : runtime.active.setConfigAll settings with
  | error failure =>
    exact ⟨.error failure, _, run_bind_of_error (run_liftM _ _) _, spared_withActive _ _, rfl⟩
  | ok context =>
    rw [run_bind_of_ok (run_liftM _ _), run_sure rfl]
    exact ⟨.ok (), _, rfl, spared_withActive runtime context,
      Context.registrations_of_setConfigAll hChanged⟩

/-- What is asked for aside is answered. -/
theorem run_answer_of_aside {request : Request P σ} (h : request.Aside) (setup : Setup P σ)
    (fuel : Nat) (runtime : Runtime P σ) :
    ∃ reply after, (answer setup (fuel + 1) request).run runtime = some (reply, after) ∧
      Spared runtime after ∧ after.active.registrations = runtime.active.registrations := by
  cases request with
  | current => exact ⟨_, _, run_current runtime, spared_withActive _ _, rfl⟩
  | stackSize => exact ⟨_, _, rfl, .refl runtime, rfl⟩
  | resolve name suffix =>
    obtain ⟨after, hRun, hAfter⟩ := run_resolve setup name suffix runtime
    refine ⟨_, after, hRun, ?_⟩
    rcases hAfter with rfl | rfl
    · exact ⟨.refl _, rfl⟩
    · exact ⟨spared_withActive _ _, rfl⟩
  | instantiate component => exact ⟨_, _, rfl, ⟨rfl, rfl, .inl rfl⟩, rfl⟩
  | setConfig key value =>
    exact ⟨_, _, run_changeCurrent _ runtime, spared_withActive _ _,
      Context.registrations_setConfig _ key value⟩
  | setConfigAll settings => exact run_setConfigAll settings runtime
  | config key =>
    refine ⟨runtime.active.config? key, _, ?_, spared_withActive _ _, rfl⟩
    show (current >>= fun context => pure (context.config? key) : Run P σ _).run runtime = _
    rw [StateT.run_bind, run_current]
    rfl
  | write sink text => exact ⟨_, _, rfl, ⟨rfl, rfl, .inl rfl⟩, rfl⟩
  | invoke runner args => exact ⟨_, _, rfl, ⟨rfl, rfl, .inl rfl⟩, rfl⟩
  | world change => exact ⟨_, _, rfl, ⟨rfl, rfl, .inl rfl⟩, rfl⟩
  | push | pop | create | get | register | run | command => exact h.elim

/-- Whatever comes of the act, the runtime after it is related to the one before. -/
def Ensures (rel : Runtime P σ → Runtime P σ → Prop) (act : Run P σ α) : Prop :=
  ∀ runtime value after, act.run runtime = some (value, after) → rel runtime after

def Sparing (act : Run P σ α) : Prop := Ensures Spared act

/-- Factories nest as deep after the act as before. -/
def Level (act : Run P σ α) : Prop := Ensures (fun before after => after.depth = before.depth) act

/-- The same instances are shared after the act as before. -/
def Keeping (act : Run P σ α) : Prop :=
  Ensures (fun before after => after.singletons = before.singletons) act

theorem ensures_of_run {rel : Runtime P σ → Runtime P σ → Prop} {act : Run P σ α}
    {value : Runtime P σ → α} {change : Runtime P σ → Runtime P σ}
    (hRun : ∀ runtime, act.run runtime = some (value runtime, change runtime))
    (hChange : ∀ runtime, rel runtime (change runtime)) : Ensures rel act := by
  intro runtime result after h
  rw [hRun] at h
  cases h
  exact hChange runtime

theorem Sparing.level {act : Run P σ α} (h : Sparing act) : Level act :=
  fun runtime value after hRun => (h runtime value after hRun).depth

theorem Sparing.keeping {act : Run P σ α} (h : Sparing act) : Keeping act :=
  fun runtime value after hRun => (h runtime value after hRun).singletons

theorem level_seed (target : Target P) : Level (seed target : Run P σ String) := by
  cases target <;> exact ensures_of_run (fun _ => rfl) fun _ => rfl

theorem sparing_get : Sparing (get : Run P σ (Runtime P σ)) :=
  ensures_of_run (fun _ => rfl) Spared.refl

theorem sparing_current : Sparing (current : Run P σ Context) :=
  ensures_of_run run_current fun runtime => spared_withActive runtime runtime.active

theorem sparing_changeCurrent (change : Context → Context) :
    Sparing (changeCurrent change : Run P σ Unit) :=
  ensures_of_run (run_changeCurrent change) fun runtime => spared_withActive runtime _

theorem sparing_shared? (className : String) :
    Sparing (shared? className : Run P σ (Option (Instance P))) :=
  ensures_of_run (fun _ => rfl) Spared.refl

theorem sparing_of_aside {request : Request P σ} (h : request.Aside) (setup : Setup P σ)
    (fuel : Nat) : Sparing (answer setup (fuel + 1) request) := by
  intro runtime result after hAnswer
  obtain ⟨reply, between, hRun, hSpared, _⟩ := run_answer_of_aside h setup fuel runtime
  rw [hRun] at hAnswer
  cases hAnswer
  exact hSpared

theorem sparing_resolve (setup : Setup P σ) (name suffix : String) :
    Sparing (resolve setup name suffix).run :=
  @sparing_of_aside _ _ (.resolve name suffix) trivial setup 0

end Runtime
end Wiring
