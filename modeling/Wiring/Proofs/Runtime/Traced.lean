import Wiring.Proofs.Runtime.Engine

/-! # Runs that are noted

Of a run something may be noted as it goes on. The notes are there also where nothing comes of the
run because the fuel does not last. Without them, it goes on as an ordinary run.
-/
namespace Wiring
set_option autoImplicit false

variable {P : Parts} {σ μ α β γ : Type}

/-- What comes of a run, if anything, and what was noted of it. -/
def Traced (P : Parts) (σ μ α : Type) : Type := Runtime P σ → Option (α × Runtime P σ) × List μ

namespace Traced

def bind (first : Traced P σ μ α) (next : α → Traced P σ μ β) : Traced P σ μ β := fun runtime =>
  match first runtime with
  | (none, notes) => (none, notes)
  | (some (value, after), notes) => ((next value after).1, notes ++ (next value after).2)

instance : Monad (Traced P σ μ) where
  pure value := fun runtime => (some (value, runtime), [])
  bind := bind

theorem bind_apply (first : Traced P σ μ α) (next : α → Traced P σ μ β) (runtime : Runtime P σ) :
    (first >>= next) runtime =
      match first runtime with
      | (none, notes) => (none, notes)
      | (some (value, after), notes) => ((next value after).1, notes ++ (next value after).2) := rfl

theorem bind_pure (act : Traced P σ μ α) : act >>= pure = act := by
  funext runtime
  rw [bind_apply]
  rcases act runtime with ⟨_ | ⟨value, after⟩, notes⟩
  · rfl
  · exact congrArg _ (List.append_nil notes)

theorem bind_assoc (act : Traced P σ μ α) (next : α → Traced P σ μ β) (last : β → Traced P σ μ γ) :
    act >>= next >>= last = act >>= fun value => next value >>= last := by
  funext runtime
  rw [bind_apply, bind_apply, bind_apply]
  rcases act runtime with ⟨_ | ⟨value, between⟩, first⟩
  · rfl
  · dsimp only
    rw [bind_apply]
    rcases next value between with ⟨_ | ⟨found, after⟩, second⟩
    · rfl
    · exact congrArg _ (List.append_assoc first second _)

instance : LawfulMonad (Traced P σ μ) :=
  LawfulMonad.mk' _ bind_pure (fun _ _ => rfl) bind_assoc

def quiet (act : Run P σ α) : Traced P σ μ α := fun runtime => (act.run runtime, [])

def plain (act : Traced P σ μ α) : Run P σ α := fun runtime => (act runtime).1

theorem plain_bind (first : Traced P σ μ α) (next : α → Traced P σ μ β) :
    (first >>= next).plain = first.plain >>= fun value => (next value).plain := by
  funext runtime
  show ((first >>= next) runtime).1 = (first runtime).1.bind fun pair => (next pair.1 pair.2).1
  rw [bind_apply]
  rcases first runtime with ⟨_ | ⟨value, after⟩, notes⟩ <;> rfl

/-- A run with notes goes on as an ordinary one. -/
def erasing : Simulation P σ (Traced P σ μ) where
  rel act plain := act.plain = plain
  done _ := rfl
  step {_ _ first plain next plainNext} hFirst hNext := by
    rw [plain_bind, hFirst]
    exact congrArg (plain >>= ·) (funext hNext)

section Construction

variable (setup : Setup P σ)
variable (refuse : String → Failure → Traced P σ μ (Except Failure (Instance P)))
variable (call : String → Traced P σ μ (Except Failure (Instance P)) →
  Traced P σ μ (Except Failure (Instance P)))
variable (inner : {α : Type} → Script P σ α → Traced P σ μ α)

/-- Constructs an instance, given how a construction is refused and how a factory is called. -/
def construct (className : String) (args : List Value) :
    Traced P σ μ (Except Failure (Instance P)) := fun runtime =>
  if setup.maxDepth ≤ runtime.depth then
    refuse className (.recursionLimit className setup.maxDepth) runtime
  else
    match setup.catalog.get? className with
    | none => refuse className (.unknownComponent className) runtime
    | some factory => call className (inner (factory args).run) runtime

variable {setup refuse call} {inner} {plainInner : {α : Type} → Script P σ α → Run P σ α}

theorem plain_construct
    (hRefuse : ∀ className failure, (refuse className failure).plain = pure (.error failure))
    (hCall : ∀ className act runtime, (call className act).plain.run runtime =
      (act.plain.run runtime.deeper).map fun pair => (pair.1, pair.2.shallower))
    (hInner : ∀ {α : Type} (script : Script P σ α), (inner script).plain = plainInner script)
    (className : String) (args : List Value) :
    (construct setup refuse call inner className args).plain =
      (Runtime.construct setup plainInner className args).run := by
  funext runtime
  show (construct setup refuse call inner className args runtime).1 = _
  rw [construct]
  split
  · rename_i hFull
    exact (congrFun (hRefuse className _) runtime).trans (Runtime.run_construct_of_full hFull).symm
  · rename_i hSpare
    cases hFactory : setup.catalog.get? className with
    | none =>
      exact (congrFun (hRefuse className _) runtime).trans
        (Runtime.run_construct_of_unknown hSpare hFactory).symm
    | some factory =>
      refine (hCall className _ runtime).trans ?_
      rw [hInner]
      exact (Runtime.run_construct_of_factory hSpare hFactory).symm

end Construction

section Trials

variable {runtime between : Runtime P σ} {notes : List μ} {first : ExceptT Failure (Traced P σ μ) α}

theorem bindTrial_of_none (h : first.run runtime = (none, notes))
    (next : α → ExceptT Failure (Traced P σ μ) β) :
    (first >>= next).run runtime = (none, notes) := by
  show (first.run >>= ExceptT.bindCont next) runtime = _
  rw [bind_apply, h]

theorem bindTrial_of_ok {value : α} (h : first.run runtime = (some (.ok value, between), notes))
    (next : α → ExceptT Failure (Traced P σ μ) β) :
    (first >>= next).run runtime =
      (((next value).run between).1, notes ++ ((next value).run between).2) := by
  show (first.run >>= ExceptT.bindCont next) runtime = _
  rw [bind_apply, h]
  rfl

theorem bindTrial_of_error {failure : Failure}
    (h : first.run runtime = (some (.error failure, between), notes))
    (next : α → ExceptT Failure (Traced P σ μ) β) :
    (first >>= next).run runtime = (some (.error failure, between), notes) := by
  show (first.run >>= ExceptT.bindCont next) runtime = _
  rw [bind_apply, h]
  exact congrArg _ (List.append_nil notes)

end Trials

end Traced
end Wiring
