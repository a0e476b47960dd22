import Wiring.Proofs.Path.Reach

/-! # Merging containers

A merge assigns the entries of a container one after the other. As no key occurs twice among them,
an entry neither sees nor disturbs what another one assigns, whichever kind of container the target
is and becomes: each entry meets the slot that stood there before the merge.
-/
namespace Wiring.Value
set_option autoImplicit false

theorem mergeItems_eq_mergeEntries (node : Value) (position : Nat) (items : List Value) :
    mergeItems node position items = mergeEntries node (indexedFrom position items) := by
  induction items generalizing node position with
  | nil => rw [mergeItems, indexedFrom, mergeEntries]
  | cons item rest ih =>
    rw [mergeItems, indexedFrom, mergeEntries]
    simp only [ih]

theorem assign_of_not_isContainer {new : Value} (hNew : new.isContainer = false) (old : Value) :
    assign old new =
      if old.isContainer then ⟨old, some .scalarForContainer⟩ else ⟨new, none⟩ := by
  cases new with
  | mapping entries => cases hNew
  | sequence items => cases hNew
  | _ => simp only [assign]

theorem assign_of_isScalar {old new : Value} (hOld : old.isScalar = true)
    (hNew : new.isContainer = true) : assign old new = ⟨old, some .containerForScalar⟩ := by
  simp only [isScalar, Bool.and_eq_true, Bool.not_eq_true'] at hOld
  rcases (isContainer_iff new).mp hNew with ⟨items, rfl⟩ | ⟨entries, rfl⟩ <;>
    simp [assign, hOld.1, hOld.2]

theorem assign_of_isContainer {old new : Value} (hOld : old.isContainer = true)
    (hNew : new.isContainer = true) : assign old new = mergeEntries old new.entries := by
  have hNull := isNull_of_isContainer hOld
  rcases (isContainer_iff new).mp hNew with ⟨items, rfl⟩ | ⟨entries, rfl⟩
  · rw [entries, indexed_eq_indexedFrom, ← mergeItems_eq_mergeEntries, assign]
    simp [hNull, hOld]
  · rw [assign]
    simp [hNull, hOld, Value.entries]

/-- An assignment to a slot overwrites it, is refused, or merges container into container. -/
theorem assign_cases (old new : Value) :
    (assign old new = ⟨new, none⟩ ∧
      (old = null ∨ old.isContainer = false ∧ new.isContainer = false)) ∨
    (assign old new = ⟨old, some .scalarForContainer⟩ ∧
      old.isContainer = true ∧ new.isContainer = false) ∨
    (assign old new = ⟨old, some .containerForScalar⟩ ∧
      old.isScalar = true ∧ new.isContainer = true) ∨
    (assign old new = mergeEntries old new.entries ∧
      old.isContainer = true ∧ new.isContainer = true) := by
  cases hNew : new.isContainer with
  | false =>
    rw [assign_of_not_isContainer hNew]
    cases hOld : old.isContainer with
    | false => exact .inl ⟨rfl, .inr ⟨rfl, rfl⟩⟩
    | true => exact .inr (.inl ⟨rfl, rfl, rfl⟩)
  | true =>
    cases hScalar : old.isScalar with
    | true => exact .inr (.inr (.inl ⟨assign_of_isScalar hScalar hNew, rfl, rfl⟩))
    | false =>
      rcases eq_null_or_isContainer hScalar with rfl | hOld
      · exact .inl ⟨assign_null new, .inl rfl⟩
      · exact .inr (.inr (.inr ⟨assign_of_isContainer hOld hNew, hOld, rfl⟩))

theorem assign_value_of_conflict_eq_none {old new : Value}
    (hNone : (assign old new).conflict = none) (h : new.isContainer = false ∨ old = null) :
    (assign old new).value = new := by
  rcases h with hNew | rfl
  · rw [assign_of_not_isContainer hNew] at hNone ⊢
    split at hNone
    · cases hNone
    · rename_i hOld
      rw [if_neg hOld]
  · rw [assign_null]

theorem isContainer_mergeEntries (node : Value) (entries : List (String × Value)) :
    (mergeEntries node entries).value.isContainer = node.isContainer := by
  induction entries generalizing node with
  | nil => rw [mergeEntries]
  | cons entry rest ih =>
    rw [mergeEntries]
    split
    · exact isContainer_put _ _ _
    · exact (ih _).trans (isContainer_put _ _ _)

section Entries

variable {node : Value} {key : String} {entries : List (String × Value)}

theorem mergeEntries_cons_of_conflict_eq_some {new : Value} {conflict : Path.Conflict}
    (h : (assign (node.held key) new).conflict = some conflict) :
    mergeEntries node ((key, new) :: entries) =
      ⟨node.put key (assign (node.held key) new).value, some conflict⟩ := by
  rw [mergeEntries]
  simp only [h]

theorem mergeEntries_cons_of_conflict_eq_none {new : Value}
    (h : (assign (node.held key) new).conflict = none) :
    mergeEntries node ((key, new) :: entries) =
      mergeEntries (node.put key (assign (node.held key) new).value) entries := by
  rw [mergeEntries]
  simp only [h]

theorem child?_mergeEntries_of_not_mem (hNode : node.isContainer = true)
    (hKey : key ∉ Entries.keys entries) :
    (mergeEntries node entries).value.child? key = node.child? key := by
  induction entries generalizing node with
  | nil => rw [mergeEntries]
  | cons entry rest ih =>
    obtain ⟨other, new⟩ := entry
    have hNe : other ≠ key := fun h => hKey (h ▸ List.mem_cons_self)
    have hRest : key ∉ Entries.keys rest := fun h => hKey (List.mem_cons_of_mem _ h)
    have hPut : ∀ value, (node.put other value).child? key = node.child? key := by
      intro value
      rw [child?_put hNode, if_neg hNe]
    rw [mergeEntries]
    split
    · exact hPut _
    · rw [ih (by rwa [isContainer_put]) hRest, hPut]

/-- The slot of the first entry holds what was assigned to it, whatever becomes of the rest. -/
theorem child?_mergeEntries_cons (hNode : node.isContainer = true)
    (hKey : key ∉ Entries.keys entries) (new : Value) :
    (mergeEntries node ((key, new) :: entries)).value.child? key =
      some (assign (node.held key) new).value := by
  have hPut : (node.put key (assign (node.held key) new).value).child? key =
      some (assign (node.held key) new).value := by
    rw [child?_put hNode, if_pos rfl]
  cases hConflict : (assign (node.held key) new).conflict with
  | some conflict => rw [mergeEntries_cons_of_conflict_eq_some hConflict, hPut]
  | none =>
    rw [mergeEntries_cons_of_conflict_eq_none hConflict,
      child?_mergeEntries_of_not_mem (by rwa [isContainer_put]) hKey, hPut]

theorem held_put_of_mem {new : Value} {rest : List (String × Value)}
    (hNode : node.isContainer = true) (hKey : key ∉ Entries.keys rest) {other : String}
    (hOther : (other, new) ∈ rest) (value : Value) :
    (node.put key value).held other = node.held other := by
  have hNe : key ≠ other := by
    rintro rfl
    exact hKey (Entries.mem_keys_of_mem hOther)
  rw [held_put hNode, if_neg hNe]

theorem mergeEntries_conflict_eq_none_iff (hNode : node.isContainer = true)
    (hKeys : (Entries.keys entries).Nodup) :
    (mergeEntries node entries).conflict = none ↔
      ∀ key new, (key, new) ∈ entries → (assign (node.held key) new).conflict = none := by
  induction entries generalizing node with
  | nil =>
    rw [mergeEntries]
    simp
  | cons entry rest ih =>
    obtain ⟨first, value⟩ := entry
    obtain ⟨hFirst, hRest⟩ := List.nodup_cons.mp hKeys
    rw [mergeEntries]
    split
    · rename_i conflict hConflict
      simp only [reduceCtorEq, false_iff]
      intro h
      rw [h first value List.mem_cons_self] at hConflict
      cases hConflict
    · rename_i hNone
      rw [ih (by rwa [isContainer_put]) hRest]
      constructor
      · intro h key new hMem
        rcases List.mem_cons.mp hMem with hMem | hMem
        · cases hMem
          exact hNone
        · rw [← held_put_of_mem hNode hFirst hMem]
          exact h key new hMem
      · intro h key new hMem
        rw [held_put_of_mem hNode hFirst hMem]
        exact h key new (List.mem_cons_of_mem _ hMem)

theorem child?_mergeEntries_of_mem (hNode : node.isContainer = true)
    (hKeys : (Entries.keys entries).Nodup) (hNone : (mergeEntries node entries).conflict = none)
    {new : Value} (hMem : (key, new) ∈ entries) :
    (mergeEntries node entries).value.child? key = some (assign (node.held key) new).value := by
  induction entries generalizing node with
  | nil => cases hMem
  | cons entry rest ih =>
    obtain ⟨first, value⟩ := entry
    obtain ⟨hFirst, hRest⟩ := List.nodup_cons.mp hKeys
    rcases List.mem_cons.mp hMem with hMem | hMem
    · cases hMem
      exact child?_mergeEntries_cons hNode hFirst new
    · rw [mergeEntries] at hNone ⊢
      split at hNone
      · cases hNone
      · rw [ih (by rwa [isContainer_put]) hRest hNone hMem, held_put_of_mem hNode hFirst hMem]

end Entries

/-- Keys lead, through containers on both sides, to a container on one side and to something else
on the other; null on the old side counts as absent. -/
def Clash (old new : Value) : Prop :=
  ∃ keys found given, old.reach? keys = some found ∧ new.reach? keys = some given ∧
    found.isNull = false ∧ found.isContainer ≠ given.isContainer

theorem not_clash_null (new : Value) : ¬Clash null new := by
  rintro ⟨keys, found, given, hFound, _, hNull, _⟩
  cases keys with
  | nil =>
    cases hFound
    cases hNull
  | cons key rest => cases hFound

theorem clash_of_isContainer_ne {old new : Value} (hOld : old.isNull = false)
    (h : old.isContainer ≠ new.isContainer) : Clash old new :=
  ⟨[], old, new, rfl, rfl, hOld, h⟩

theorem not_clash_of_not_isContainer {old new : Value} (hOld : old.isContainer = false)
    (hNew : new.isContainer = false) : ¬Clash old new := by
  rintro ⟨keys, found, given, hFound, hGiven, _, hNe⟩
  cases keys with
  | nil =>
    cases hFound
    cases hGiven
    exact hNe (hOld.trans hNew.symm)
  | cons key rest =>
    rw [reach?_cons_of_not_isContainer hOld] at hFound
    cases hFound

theorem clash_iff_exists_child {old new : Value} (h : old.isContainer = new.isContainer) :
    Clash old new ↔ ∃ key child, new.child? key = some child ∧ Clash (old.held key) child := by
  constructor
  · rintro ⟨keys, found, given, hFound, hGiven, hNull, hNe⟩
    cases keys with
    | nil =>
      cases hFound
      cases hGiven
      exact absurd h hNe
    | cons key rest =>
      obtain ⟨target, hTarget, hFound⟩ := reach?_cons_eq_some_iff.mp hFound
      obtain ⟨child, hChild, hGiven⟩ := reach?_cons_eq_some_iff.mp hGiven
      rw [← held_of_child? hTarget] at hFound
      exact ⟨key, child, hChild, rest, found, given, hFound, hGiven, hNull, hNe⟩
  · rintro ⟨key, child, hChild, hClash⟩
    have hNe : old.held key ≠ null := fun hNull => not_clash_null child (hNull ▸ hClash)
    obtain ⟨rest, found, given, hFound, hGiven, hNull, hKind⟩ := hClash
    refine ⟨key :: rest, found, given, ?_, ?_, hNull, hKind⟩
    · exact reach?_cons_eq_some_iff.mpr ⟨_, child?_of_held_ne_null hNe, hFound⟩
    · exact reach?_cons_eq_some_iff.mpr ⟨child, hChild, hGiven⟩

theorem assign_conflict_eq_none_iff {new : Value} (hNew : new.WellFormed) (old : Value) :
    (assign old new).conflict = none ↔ ¬Clash old new := by
  induction new using induction_on_entries generalizing old with
  | step new ih =>
    rcases assign_cases old new with ⟨hAssign, hKind⟩ | ⟨hAssign, hOld, hKind⟩ |
      ⟨hAssign, hOld, hKind⟩ | ⟨hAssign, hOld, hKind⟩
    · have hNo : ¬Clash old new := by
        rcases hKind with rfl | ⟨hOld, hKind⟩
        · exact not_clash_null new
        · exact not_clash_of_not_isContainer hOld hKind
      simp [hAssign, hNo]
    · have hClash : Clash old new :=
        clash_of_isContainer_ne (isNull_of_isContainer hOld) (by rw [hOld, hKind]; decide)
      simp [hAssign, hClash]
    · have hClash : Clash old new :=
        clash_of_isContainer_ne (isNull_of_isScalar hOld)
          (by rw [isContainer_of_isScalar hOld, hKind]; decide)
      simp [hAssign, hClash]
    · rw [hAssign, mergeEntries_conflict_eq_none_iff hOld hNew.nodup_keys,
        clash_iff_exists_child (hOld.trans hKind.symm)]
      constructor
      · rintro h ⟨key, child, hChild, hClash⟩
        have hMem := hNew.child?_eq_some_iff.mp hChild
        exact (ih key child hMem (hNew.of_mem_entries hMem) _).mp (h key child hMem) hClash
      · intro h key child hMem
        apply (ih key child hMem (hNew.of_mem_entries hMem) _).mpr
        intro hClash
        exact h ⟨key, child, hNew.child?_eq_some_iff.mpr hMem, hClash⟩

theorem reach?_assign {new : Value} (hNew : new.WellFormed) {old found : Value}
    (hNone : (assign old new).conflict = none) {keys : List String}
    (hFound : new.reach? keys = some found) (hLeaf : found.isContainer = false) :
    (assign old new).value.reach? keys = some found := by
  induction new using induction_on_entries generalizing old keys with
  | step new ih =>
    rcases assign_cases old new with ⟨hAssign, _⟩ | ⟨hAssign, _, _⟩ | ⟨hAssign, _, _⟩ |
      ⟨hAssign, hOld, hKind⟩
    · rw [hAssign]
      exact hFound
    · rw [hAssign] at hNone
      cases hNone
    · rw [hAssign] at hNone
      cases hNone
    · cases keys with
      | nil =>
        cases hFound
        rw [hKind] at hLeaf
        cases hLeaf
      | cons key rest =>
        obtain ⟨child, hChild, hRest⟩ := reach?_cons_eq_some_iff.mp hFound
        have hMem := hNew.child?_eq_some_iff.mp hChild
        rw [hAssign] at hNone ⊢
        have hChildNone : (assign (old.held key) child).conflict = none :=
          (mergeEntries_conflict_eq_none_iff hOld hNew.nodup_keys).mp hNone key child hMem
        exact reach?_cons_eq_some_iff.mpr
          ⟨_, child?_mergeEntries_of_mem hOld hNew.nodup_keys hNone hMem,
            ih key child hMem (hNew.of_mem_entries hMem) hChildNone hRest⟩

end Wiring.Value
