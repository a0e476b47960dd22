import Wiring.Proofs.Runtime.Filing
import Wiring.Proofs.Runtime.Resolution

/-! # Attempts step by step

What a script attempts is performed one thing after the other, until something fails. Resolving a
name, reading a shared instance and printing a line are such steps, in a runtime that has an active
context.
-/
namespace Wiring.Runtime
set_option autoImplicit false

variable {P : Parts} {σ α β : Type} {setup : Setup P σ} {runtime : Runtime P σ}

def withWorld (runtime : Runtime P σ) (world : σ) : Runtime P σ := { runtime with world }

theorem perform_bindAttempt (setup : Setup P σ) (fuel : Nat) (first : Attempt P σ α)
    (next : α → Attempt P σ β) :
    perform setup fuel (first >>= next).run =
      (settle (perform setup fuel first.run) >>= fun value =>
        settle (perform setup fuel (next value).run)).run := by
  rw [perform, ExceptT.run_bind]
  refine (interpret_bind _ _ _).trans ?_
  rw [ExceptT.run_bind]
  refine bind_congr fun result => ?_
  cases result <;> rfl

section Attempts

variable {fuel : Nat} {first : Attempt P σ α} {after : Runtime P σ}

theorem perform_bind_of_ok {value : α}
    (h : (perform setup fuel first.run).run runtime = some (.ok value, after))
    (next : α → Attempt P σ β) :
    (perform setup fuel (first >>= next).run).run runtime =
      (perform setup fuel (next value).run).run after := by
  rw [perform_bindAttempt]
  exact run_bind_of_ok h _

theorem perform_bind_of_error {failure : Failure}
    (h : (perform setup fuel first.run).run runtime = some (.error failure, after))
    (next : α → Attempt P σ β) :
    (perform setup fuel (first >>= next).run).run runtime = some (.error failure, after) := by
  rw [perform_bindAttempt]
  exact run_bind_of_error h _

end Attempts

theorem withActive_active (h : runtime.stack ≠ []) :
    runtime.withActive runtime.active = runtime := by
  obtain ⟨singletons, stack, depth, made, world⟩ := runtime
  cases stack with
  | nil => exact absurd rfl h
  | cons context below => rfl

theorem run_resolve_of_resolution {name suffix : String} {result : Except Failure String}
    (hStack : runtime.stack ≠ []) (h : resolution setup runtime.active name suffix = result) :
    (resolve setup name suffix).run.run runtime = some (result, runtime) := by
  obtain ⟨after, hRun, rfl | rfl⟩ := run_resolve setup name suffix runtime
  · rw [hRun, h]
  · rw [hRun, h, withActive_active hStack]

theorem run_shared {className : String} {held : Option (Instance P)}
    (h : runtime.singletons.get? className = held) :
    (sure (shared? className)).run.run runtime = some (.ok held, runtime) := by
  rw [← h]
  rfl

theorem run_liftM_of_eq {outcome result : Except Failure α} (h : outcome = result) :
    (liftM outcome : Trial P σ α).run.run runtime = some (result, runtime) := by
  rw [run_liftM, h]

theorem perform_print {sink : P.Sink} {words : List Value} {reply : Except String Unit} {world : σ}
    (hWrite : setup.put sink (Line.format words) runtime.world = (reply, world)) (fuel : Nat) :
    (perform setup (fuel + 1) (Script.print sink words).run).run runtime =
      some (reply.mapError (.io "cannot write to \x7b1\x7d" Component.terminalClass ·),
        runtime.withWorld world) := by
  have hAsked : (perform setup (fuel + 1)
      (Script.sure (Script.perform (.write sink (Line.format words)))).run).run runtime =
      some (.ok (setup.put sink (Line.format words) runtime.world).1,
        runtime.withWorld (setup.put sink (Line.format words) runtime.world).2) := rfl
  rw [hWrite] at hAsked
  refine (perform_bind_of_ok hAsked _).trans ?_
  cases reply <;> rfl

end Wiring.Runtime
