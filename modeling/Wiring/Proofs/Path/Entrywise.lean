import Wiring.Proofs.Path.Assignment

/-! # Merging entry by entry

Merging a container into one that is there comes to the same as assigning its entries one at a time,
each along its own path from the root and up to the first that fails. The value left is the same one
also where an entry fails halfway; only the path that the failure names is a longer one.
-/
namespace Wiring.Value
set_option autoImplicit false

/-- Assigns entries below keys one after the other, up to the first failure. -/
def setEach (root : Value) (keys : List String) :
    List (String × Value) → Value × Except Failure Unit
  | [] => (root, .ok ())
  | (key, new) :: rest =>
    match root.set (.keys (keys ++ [key])) new with
    | (root, .ok ()) => root.setEach keys rest
    | (root, .error failure) => (root, .error failure)

/-- Both succeed, or both fail with one conflict, about whatever paths. -/
inductive SameButPath : Except Failure Unit → Except Failure Unit → Prop where
  | ok : SameButPath (.ok ()) (.ok ())
  | conflict (conflict : Path.Conflict) (first second : String) :
      SameButPath (.error (.typeConflict (Failure.conflictReason conflict) first))
        (.error (.typeConflict (Failure.conflictReason conflict) second))

theorem sameButPath_reported (first second : Path) (conflict : Option Path.Conflict) :
    SameButPath (reported first conflict) (reported second conflict) := by
  cases conflict with
  | none => exact .ok
  | some conflict => exact .conflict conflict first.display second.display

theorem set_keys_concat {root old : Value} {keys : List String} (h : root.reach? keys = some old)
    (hOld : old.isContainer = true) (key : String) (new : Value) :
    root.set (.keys (keys ++ [key])) new =
      (root.replace keys (old.put key (assign (old.held key) new).value),
        reported (.keys (keys ++ [key])) (assign (old.held key) new).conflict) := by
  rw [set_keys, assignAt_append h, assignAt_cons (isScalar_of_isContainer hOld),
    opened_of_isContainer hOld]
  rfl

/-- What is left after some entries is the target with these merged, in its old place. -/
theorem setEach_eq_replace_mergeEntries {root old : Value} {keys : List String}
    (h : root.reach? keys = some old) (hOld : old.isContainer = true)
    (entries : List (String × Value)) :
    ∃ path, root.setEach keys entries =
      (root.replace keys (mergeEntries old entries).value,
        reported path (mergeEntries old entries).conflict) := by
  induction entries generalizing root old with
  | nil =>
    rw [setEach, mergeEntries, replace_of_reach? h]
    exact ⟨.keys keys, rfl⟩
  | cons entry rest ih =>
    obtain ⟨key, new⟩ := entry
    rw [setEach, set_keys_concat h hOld, mergeEntries]
    cases hConflict : (assign (old.held key) new).conflict with
    | some conflict => exact ⟨.keys (keys ++ [key]), rfl⟩
    | none =>
      obtain ⟨path, hRest⟩ := ih (reach?_replace h (old.put key (assign (old.held key) new).value))
        (by rwa [isContainer_put])
      rw [replace_replace h] at hRest
      exact ⟨path, by simpa only [reported, hConflict] using hRest⟩

/-- The container must be one that the root holds itself: what an object answers for a property is
no place to assign to, not even for a container without entries. -/
theorem set_keys_eq_setEach_entries {root old new : Value} {keys : List String}
    (h : root.reach? keys = some old) (hOld : old.isContainer = true)
    (hNew : new.isContainer = true) :
    (root.set (.keys keys) new).1 = (root.setEach keys new.entries).1 ∧
      SameButPath (root.set (.keys keys) new).2 (root.setEach keys new.entries).2 := by
  obtain ⟨path, hEach⟩ := setEach_eq_replace_mergeEntries h hOld new.entries
  have hSet : root.assignAt keys new =
      ⟨root.replace keys (mergeEntries old new.entries).value,
        (mergeEntries old new.entries).conflict⟩ := by
    have hAssign := assignAt_append h [] new
    rwa [List.append_nil, assignAt, assign_of_isContainer hOld hNew] at hAssign
  rw [set_keys, hSet, hEach]
  exact ⟨rfl, sameButPath_reported _ _ _⟩

/-- The entry under `x` clashes at `p`, after `n` and `q` were merged and before `z` is. -/
theorem setEach_entries_eq_set_keys_halfway :
    ((mapping [("a", mapping [("x", mapping [("p", integer 1)])])]).setEach ["a"]
      (mapping [("n", null), ("x", mapping [("q", null), ("p", sequence [])]),
        ("z", null)]).entries).1 =
      mapping [("a", mapping [("x", mapping [("p", integer 1), ("q", null)]), ("n", null)])] := by
  have hHeld : (mapping [("a", mapping [("x", mapping [("p", integer 1)])])]).reach? ["a"] =
      some (mapping [("x", mapping [("p", integer 1)])]) := rfl
  have hNew : (mapping [("n", null), ("x", mapping [("q", null), ("p", sequence [])]),
      ("z", null)]).isContainer = true := rfl
  rw [← (set_keys_eq_setEach_entries hHeld rfl hNew).1]
  rfl

end Wiring.Value
