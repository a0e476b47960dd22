import Wiring.Failure
import Wiring.Proofs.Path.Walk

/-! # Reads after assignments

A successful assignment is read back at its keys, whatever shapes were merged; no assignment is
seen at keys that part from its own; and one fails exactly if a scalar stops its walk or a container
meets something else, which no merge of other entries can bring about or hide.
-/
namespace Wiring.Value
set_option autoImplicit false

def reported (path : Path) : Option Path.Conflict → Except Failure Unit
  | none => .ok ()
  | some conflict => .error (.typeConflict (Failure.conflictReason conflict) path.display)

theorem set_keys (root : Value) (keys : List String) (new : Value) :
    root.set (.keys keys) new =
      ((root.assignAt keys new).value,
        reported (.keys keys) (root.assignAt keys new).conflict) := by
  simp only [set, Path.keys?]
  cases (root.assignAt keys new).conflict <;> rfl

/-- A path either leads along keys, to an assignment at these, or is refused for what it is,
whatever is assigned. -/
theorem set_cases (path : Path) :
    (∃ keys, ∀ root new : Value, root.set path new =
      ((root.assignAt keys new).value, reported path (root.assignAt keys new).conflict)) ∨
    ∃ failure, ∀ root new : Value, root.set path new = (root, .error failure) := by
  cases hKeys : path.keys? with
  | error malformed => exact .inr ⟨.ofMalformed malformed, fun _ _ => by simp only [set, hKeys]⟩
  | ok keys =>
    cases keys with
    | none =>
      right
      refine ⟨.ofTemplate .invalidArgument "cannot assign to the whole value" [], fun _ _ => ?_⟩
      simp only [set, hKeys]
    | some keys =>
      refine .inl ⟨keys, fun root new => ?_⟩
      simp only [set, hKeys]
      cases (root.assignAt keys new).conflict <;> rfl

theorem get?_keys (root : Value) (keys : List String) :
    root.get? (.keys keys) = .ok (root.at? keys) :=
  get?_of_keys? rfl root

theorem reported_eq_ok_iff {path : Path} {conflict : Option Path.Conflict} :
    reported path conflict = .ok () ↔ conflict = none := by
  cases conflict <;> simp [reported]

theorem kind_of_reported {path : Path} {conflict : Option Path.Conflict} {failure : Failure}
    (h : reported path conflict = .error failure) : failure.kind = .typeConflict := by
  cases conflict with
  | none => cases h
  | some conflict =>
    cases h
    rfl

theorem assignAt_conflict_eq_none_iff {new : Value} (hNew : new.WellFormed) (root : Value)
    (keys : List String) :
    (root.assignAt keys new).conflict = none ↔
      ¬Blocked root keys ∧ ¬Clash (root.slot keys) new := by
  by_cases hBlocked : Blocked root keys
  · rw [assignAt_of_blocked hBlocked]
    simp [hBlocked]
  · rw [assignAt_conflict hBlocked, assign_conflict_eq_none_iff hNew]
    simp [hBlocked]

theorem clash_slot_iff {root new : Value} {keys : List String} :
    Clash (root.slot keys) new ↔ ∃ old, root.reach? keys = some old ∧ Clash old new := by
  cases hOld : root.reach? keys with
  | none =>
    rw [slot, hOld, Option.getD_none]
    simp [not_clash_null]
  | some old =>
    rw [slot_of_reach? hOld]
    simp

theorem assignAt_value_of_conflict {root new : Value} {keys : List String}
    (hNew : new.isContainer = false) (h : (root.assignAt keys new).conflict ≠ none) :
    (root.assignAt keys new).value = root := by
  by_cases hBlocked : Blocked root keys
  · rw [assignAt_of_blocked hBlocked]
  · rw [assignAt_conflict hBlocked, assign_of_not_isContainer hNew] at h
    split at h
    · rename_i hSlot
      cases hOld : root.reach? keys with
      | none =>
        rw [slot, hOld] at hSlot
        cases hSlot
      | some old =>
        rw [slot_of_reach? hOld] at hSlot
        rw [← List.append_nil keys, assignAt_append hOld, assignAt, assign_of_not_isContainer hNew,
          if_pos hSlot]
        exact replace_of_reach? hOld
    · exact absurd rfl h

/-- After a successful assignment, the keys lead to the new value if it is no container or if they
led to nothing or null; and whatever was merged, they lead on to each value that the new one holds
in its containers. -/
theorem get?_keys_of_set_eq_ok {root root' new : Value} {keys : List String}
    (hNew : new.WellFormed) (hSet : root.set (.keys keys) new = (root', .ok ())) :
    (new.isContainer = false ∨ root.get? (.keys keys) = .ok none ∨
        root.get? (.keys keys) = .ok (some null) →
      root'.get? (.keys keys) = .ok (some new)) ∧
    ∀ inner found, new.reach? inner = some found → found.isContainer = false →
      root'.get? (.keys (keys ++ inner)) = .ok (some found) := by
  rw [set_keys, Prod.mk.injEq, reported_eq_ok_iff] at hSet
  obtain ⟨rfl, hNone⟩ := hSet
  have hOpen : ¬Blocked root keys := ((assignAt_conflict_eq_none_iff hNew root keys).mp hNone).1
  have hReach := reach?_assignAt hOpen new
  rw [assignAt_conflict hOpen] at hNone
  constructor
  · intro h
    have hSlot : new.isContainer = false ∨ root.slot keys = null := by
      simp only [get?_keys, at?_eq_reach? hOpen, Except.ok.injEq] at h
      rcases h with hLeaf | hAbsent | hNull
      · exact .inl hLeaf
      · exact .inr (by rw [slot, hAbsent, Option.getD_none])
      · exact .inr (slot_of_reach? hNull)
    rw [get?_keys, at?_of_reach? hReach, assign_value_of_conflict_eq_none hNone hSlot]
  · intro inner found hFound hLeaf
    have hInner : (root.assignAt keys new).value.reach? (keys ++ inner) = some found := by
      rw [reach?_append, hReach, Option.bind_some]
      exact reach?_assign hNew hNone hFound hLeaf
    rw [get?_keys, at?_of_reach? hInner]

theorem get?_keys_of_set_eq_ok_converted :
    ∃ root', (mapping [("a", sequence [integer 1])]).set (.keys ["a"])
        (mapping [("1", string "x"), ("name", bool true), ("0", integer 2)]) = (root', .ok ()) ∧
      root'.get? (.keys ["a", "0"]) = .ok (some (integer 2)) := by
  have hNew : (mapping [("1", string "x"), ("name", bool true), ("0", integer 2)]).WellFormed :=
    ⟨by decide, trivial, trivial, trivial, trivial⟩
  have hSet : (mapping [("a", sequence [integer 1])]).set (.keys ["a"])
      (mapping [("1", string "x"), ("name", bool true), ("0", integer 2)]) =
        (mapping [("a", mapping [("0", integer 2), ("1", string "x"), ("name", bool true)])],
          .ok ()) := rfl
  exact ⟨_, hSet, (get?_keys_of_set_eq_ok hNew hSet).2 ["0"] (integer 2) rfl rfl⟩

/-- An assignment, successful or not, is seen at no keys that part from its own. -/
theorem get?_keys_set_of_not_prefix {keys other : List String} (hKeys : ¬keys <+: other)
    (hOther : ¬other <+: keys) (root new : Value) :
    (root.set (.keys keys) new).1.get? (.keys other) = root.get? (.keys other) := by
  rw [set_keys, get?_keys, get?_keys, at?_assignAt_of_not_prefix hKeys hOther]

theorem get?_keys_set_of_not_prefix_converted :
    ((sequence [integer 1]).set (.keys ["01"]) null).1.get? (.keys ["0"]) =
      .ok (some (integer 1)) :=
  get?_keys_set_of_not_prefix (by decide) (by decide) (sequence [integer 1]) null

/-- An assignment fails exactly if a scalar stops its walk or the new value clashes with the old
one, always with a type conflict; and it leaves the root as it was if the walk was stopped or the
new value is no container. -/
theorem set_keys_eq_error_iff {root new : Value} {keys : List String} (hNew : new.WellFormed) :
    ((∃ failure, (root.set (.keys keys) new).2 = .error failure) ↔
      Blocked root keys ∨ ∃ old, root.reach? keys = some old ∧ Clash old new) ∧
    ∀ failure, (root.set (.keys keys) new).2 = .error failure →
      failure.kind = .typeConflict ∧
      (Blocked root keys ∨ new.isContainer = false → (root.set (.keys keys) new).1 = root) := by
  rw [set_keys]
  constructor
  · have hFails : (∃ failure, reported (.keys keys) (root.assignAt keys new).conflict =
        .error failure) ↔ (root.assignAt keys new).conflict ≠ none := by
      cases (root.assignAt keys new).conflict <;> simp [reported]
    rw [hFails, Ne, assignAt_conflict_eq_none_iff hNew, ← clash_slot_iff,
      Classical.not_and_iff_not_or_not, Classical.not_not, Classical.not_not]
  · intro failure hFailure
    refine ⟨kind_of_reported hFailure, ?_⟩
    rintro (hBlocked | hLeaf)
    · rw [assignAt_of_blocked hBlocked]
    · apply assignAt_value_of_conflict hLeaf
      intro hNone
      rw [hNone] at hFailure
      cases hFailure

theorem set_keys_eq_error_iff_merged :
    (mapping [("x", integer 2), ("y", integer 3)]).WellFormed ∧
    ∃ failure, ((mapping [("a", mapping [("x", integer 1), ("y", sequence [])])]).set (.keys ["a"])
      (mapping [("x", integer 2), ("y", integer 3)])).2 = .error failure := by
  have hNew : (mapping [("x", integer 2), ("y", integer 3)]).WellFormed :=
    ⟨by decide, trivial, trivial, trivial⟩
  have hClash : Clash (mapping [("x", integer 1), ("y", sequence [])])
      (mapping [("x", integer 2), ("y", integer 3)]) :=
    ⟨["y"], sequence [], integer 3, rfl, rfl, rfl, by decide⟩
  exact ⟨hNew, (set_keys_eq_error_iff hNew).1.mpr (.inr ⟨_, rfl, hClash⟩)⟩

end Wiring.Value
