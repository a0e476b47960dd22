import Wiring.Proofs.Runtime.History
import Wiring.Proofs.Runtime.Resolution

/-! # Entering contexts

A context is entered by pushing it. What is popped when its body is done is the context on top by
then, whichever it is: the entered one only if the body left the stack as it should. So a body that
pushes without popping leaves the entered context on the stack, and one that pops without pushing
takes a context from below it.
-/
namespace Wiring
set_option autoImplicit false

variable {P : Parts} {σ α : Type}

namespace Runtime

def pushing (runtime : Runtime P σ) (context : Context) : Runtime P σ :=
  { runtime with stack := context :: runtime.stack }

def popped (runtime : Runtime P σ) : Runtime P σ :=
  { runtime with stack := runtime.stack.tail }

theorem run_enter (context : Context) (body : Run P σ α) (runtime : Runtime P σ) :
    (enter context body).run runtime =
      (body.run (runtime.pushing context)).map fun pair => (pair.1, pair.2.popped) := by
  show ((body.run (runtime.pushing context)).bind fun pair => some (pair.1, pair.2.popped)) = _
  exact (Option.map_eq_bind ..).symm

theorem perform_enter (setup : Setup P σ) (fuel : Nat) (context : Context) (body : Script P σ α) :
    perform setup (fuel + 1) (Script.enter context body) =
      enter context (perform setup (fuel + 1) body) := by
  show (push context >>= fun _ => interpret (answer setup (fuel + 1))
    (body.bind fun result => Script.perform .pop >>= fun _ => .done result)) = _
  rw [interpret_bind]
  rfl

/-- After a body is done, its context is left by popping the one on top. So the stack is as it was
before if the body left one context more, whatever that is. -/
theorem stack_enter {context : Context} {body : Run P σ α} {runtime left : Runtime P σ} {result : α}
    (hBody : body.run (runtime.pushing context) = some (result, left)) :
    ∃ after, (enter context body).run runtime = some (result, after) ∧
      (after.stack = runtime.stack ↔
        (∃ top, left.stack = top :: runtime.stack) ∨ left.stack = [] ∧ runtime.stack = []) := by
  refine ⟨left.popped, by rw [run_enter, hBody, Option.map_some], ?_⟩
  show left.stack.tail = runtime.stack ↔ _
  cases left.stack with
  | nil => simp [eq_comm]
  | cons top below => simp

def abandoned : Attempt ⟨Empty, Empty, Empty⟩ Unit Unit := do
  Script.sure (Script.perform (.push {}))
  throw (.invalidName "")

theorem stack_enter_abandoned :
    let context : Context := Context.register {} "kieli" "Savoksi\\Suomi"
    let runtime : Runtime ⟨Empty, Empty, Empty⟩ Unit := { stack := [{}], world := () }
    ∃ left, (perform bareSetup 1 abandoned.run).run (runtime.pushing context) =
        some (.error (.invalidName ""), left) ∧
      ∃ after, (enter context (perform bareSetup 1 abandoned.run)).run runtime =
          some (.error (.invalidName ""), after) ∧
        (after.stack = runtime.stack ↔
          (∃ top, left.stack = top :: runtime.stack) ∨ left.stack = [] ∧ runtime.stack = []) := by
  intro context runtime
  have hBody : (perform bareSetup 1 abandoned.run).run (runtime.pushing context) =
      some (.error (.invalidName ""), (runtime.pushing context).pushing {}) := rfl
  exact ⟨_, hBody, stack_enter hBody⟩

/-- The entered context stays on the stack. -/
theorem enter_leaves_context :
    let context : Context := Context.register {} "kieli" "Savoksi\\Suomi"
    let runtime : Runtime ⟨Empty, Empty, Empty⟩ Unit := { stack := [{}], world := () }
    ∃ after, (perform bareSetup 1 (Script.enter context abandoned.run)).run runtime =
        some (.error (.invalidName ""), after) ∧
      context ∈ after.stack ∧ after.stack ≠ runtime.stack := by
  intro context runtime
  have hRun : (perform bareSetup 1 (Script.enter context abandoned.run)).run runtime =
      some (.error (.invalidName ""), runtime.pushing context) := by
    rw [perform_enter, run_enter]
    rfl
  exact ⟨_, hRun, List.mem_cons_self, List.cons_ne_self context [{}]⟩

end Runtime

namespace Watched

open Traced

theorem enter_apply (setup : Setup P σ) (inner : {α : Type} → Script P σ α → Watched P σ α)
    (context : Context) (body : Watched P σ α) (runtime : Runtime P σ) :
    (engine setup inner).enter context body runtime =
      ((body (runtime.pushing context)).1.map fun pair => (pair.1, pair.2.popped),
        (body (runtime.pushing context)).2) := by
  show (body >>= fun result => quiet Runtime.pop >>= fun _ => pure result)
    (runtime.pushing context) = _
  rw [bind_apply]
  rcases body (runtime.pushing context) with ⟨_ | ⟨result, left⟩, moments⟩
  · rfl
  · exact congrArg _ (List.append_nil moments)

end Watched
end Wiring
