import Wiring.Proofs.Path.Assignment

/-! # Assignments made twice

An assignment that is made again ends as it did before and changes nothing, not even the order of
entries or the kind of a container, also where it fails after some entries were merged: the second
run finds in each slot what the first one left there.
-/
namespace Wiring.Value
set_option autoImplicit false

/-- Entries that are there already, each with nothing to merge into it, change nothing. -/
theorem mergeEntries_eq_self {node : Value} {entries : List (String × Value)}
    (h : ∀ key new, (key, new) ∈ entries →
      ∃ old, node.child? key = some old ∧ assign old new = ⟨old, none⟩) :
    mergeEntries node entries = ⟨node, none⟩ := by
  induction entries with
  | nil => rw [mergeEntries]
  | cons entry rest ih =>
    obtain ⟨key, new⟩ := entry
    obtain ⟨old, hOld, hAssign⟩ := h key new List.mem_cons_self
    rw [mergeEntries, held_of_child? hOld, hAssign]
    simp only [put_of_child? hOld]
    exact ih fun other value hMem => h other value (List.mem_cons_of_mem _ hMem)

theorem assign_self {new : Value} (hNew : new.WellFormed) : assign new new = ⟨new, none⟩ := by
  induction new using induction_on_entries with
  | step new ih =>
    rcases assign_cases new new with ⟨hAssign, _⟩ | ⟨_, hOld, hKind⟩ | ⟨_, hOld, hKind⟩ |
      ⟨hAssign, _⟩
    · exact hAssign
    · rw [hOld] at hKind
      cases hKind
    · rw [isContainer_of_isScalar hOld] at hKind
      cases hKind
    · rw [hAssign]
      apply mergeEntries_eq_self
      intro key child hMem
      exact ⟨child, hNew.child?_eq_some_iff.mpr hMem, ih key child hMem (hNew.of_mem_entries hMem)⟩

theorem mergeEntries_mergeEntries {entries : List (String × Value)}
    (hKeys : (Entries.keys entries).Nodup)
    (hEntries : ∀ key new, (key, new) ∈ entries →
      ∀ old, assign (assign old new).value new = assign old new)
    {node : Value} (hNode : node.isContainer = true) :
    mergeEntries (mergeEntries node entries).value entries = mergeEntries node entries := by
  induction entries generalizing node with
  | nil => simp only [mergeEntries]
  | cons entry rest ih =>
    obtain ⟨key, new⟩ := entry
    obtain ⟨hKey, hRest⟩ := List.nodup_cons.mp hKeys
    have hAgain := hEntries key new List.mem_cons_self (node.held key)
    have hPut : (node.put key (assign (node.held key) new).value).isContainer = true := by
      rwa [isContainer_put]
    obtain ⟨merged, hMerged⟩ : ∃ merged, mergeEntries node ((key, new) :: rest) = merged := ⟨_, rfl⟩
    have hChild := child?_mergeEntries_cons hNode hKey new
    rw [hMerged] at hChild ⊢
    have hSlot : assign (merged.value.held key) new = assign (node.held key) new := by
      rw [held_of_child? hChild, hAgain]
    cases hConflict : (assign (node.held key) new).conflict with
    | some conflict =>
      rw [mergeEntries_cons_of_conflict_eq_some hConflict] at hMerged
      rw [mergeEntries_cons_of_conflict_eq_some (by rwa [hSlot]), hSlot, put_of_child? hChild,
        ← hMerged]
    | none =>
      rw [mergeEntries_cons_of_conflict_eq_none hConflict] at hMerged
      rw [mergeEntries_cons_of_conflict_eq_none (by rwa [hSlot]), hSlot, put_of_child? hChild,
        ← hMerged]
      apply ih hRest _ hPut
      exact fun other value hMem => hEntries other value (List.mem_cons_of_mem _ hMem)

theorem assign_assign {new : Value} (hNew : new.WellFormed) (old : Value) :
    assign (assign old new).value new = assign old new := by
  induction new using induction_on_entries generalizing old with
  | step new ih =>
    rcases assign_cases old new with ⟨hAssign, _⟩ | ⟨hAssign, _⟩ | ⟨hAssign, _⟩ |
      ⟨hAssign, hOld, hKind⟩
    · rw [hAssign]
      exact assign_self hNew
    · rw [hAssign]
      exact hAssign
    · rw [hAssign]
      exact hAssign
    · have hMerged : (mergeEntries old new.entries).value.isContainer = true := by
        rwa [isContainer_mergeEntries]
      rw [hAssign, assign_of_isContainer hMerged hKind]
      apply mergeEntries_mergeEntries hNew.nodup_keys _ hOld
      intro key child hMem
      exact ih key child hMem (hNew.of_mem_entries hMem)

theorem assignAt_assignAt {new : Value} (hNew : new.WellFormed) (root : Value)
    (keys : List String) :
    (root.assignAt keys new).value.assignAt keys new = root.assignAt keys new := by
  induction keys generalizing root with
  | nil => exact assign_assign hNew root
  | cons key rest ih =>
    cases hScalar : root.isScalar with
    | true => rw [assignAt_cons_of_isScalar hScalar, assignAt_cons_of_isScalar hScalar]
    | false =>
      rw [assignAt_cons_assignAt_cons hScalar, assignAt_cons hScalar]
      simp only [if_true, ih, put_put]

/-- The value and the outcome of an assignment are those of making it twice. -/
theorem set_set_self {new : Value} (hNew : new.WellFormed) (root : Value) (path : Path) :
    (root.set path new).1.set path new = root.set path new := by
  rcases set_cases path with ⟨keys, hSet⟩ | ⟨failure, hSet⟩
  · simp only [hSet, assignAt_assignAt hNew]
  · simp only [hSet]

theorem set_set_self_halfway :
    (mapping [("name", null), ("0", integer 1)]).WellFormed ∧
    (mapping [("a", sequence [sequence []])]).set (.keys ["a"])
        (mapping [("name", null), ("0", integer 1)]) =
      (mapping [("a", mapping [("0", sequence []), ("name", null)])],
        .error (.typeConflict "cannot replace container with scalar" "a")) ∧
    (mapping [("a", mapping [("0", sequence []), ("name", null)])]).set (.keys ["a"])
        (mapping [("name", null), ("0", integer 1)]) =
      (mapping [("a", mapping [("0", sequence []), ("name", null)])],
        .error (.typeConflict "cannot replace container with scalar" "a")) := by
  have hNew : (mapping [("name", null), ("0", integer 1)]).WellFormed :=
    ⟨by decide, trivial, trivial, trivial⟩
  have hSet : (mapping [("a", sequence [sequence []])]).set (.keys ["a"])
      (mapping [("name", null), ("0", integer 1)]) =
        (mapping [("a", mapping [("0", sequence []), ("name", null)])],
          .error (.typeConflict "cannot replace container with scalar" "a")) := rfl
  have hAgain := set_set_self hNew (mapping [("a", sequence [sequence []])]) (.keys ["a"])
  rw [hSet] at hAgain
  exact ⟨hNew, hSet, hAgain⟩

end Wiring.Value
