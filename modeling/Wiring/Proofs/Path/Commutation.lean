import Wiring.Proofs.Path.Assignment

/-! # Assignments in either order

Two assignments whose keys part from each other do not see each other: each ends the same way first
or second. What they leave may differ in representation, since a sequence that is written past its
next position becomes a mapping, but not in what is read from it.
-/
namespace Wiring.Value
set_option autoImplicit false

/-- Nothing in both places, one value that is no container, or a container of either kind. -/
inductive ReadAlike : Option Value → Option Value → Prop where
  | absent : ReadAlike none none
  | same {value : Value} (h : value.isContainer = false) : ReadAlike (some value) (some value)
  | containers {first second : Value} (hFirst : first.isContainer = true)
      (hSecond : second.isContainer = true) : ReadAlike (some first) (some second)

theorem ReadAlike.refl (reading : Option Value) : ReadAlike reading reading := by
  cases reading with
  | none => exact .absent
  | some value =>
    cases hValue : value.isContainer with
    | true => exact .containers hValue hValue
    | false => exact .same hValue

/-- All keys read alike. -/
def Alike (first second : Value) : Prop :=
  ∀ keys, ReadAlike (first.at? keys) (second.at? keys)

theorem Alike.refl (value : Value) : Alike value value := fun _ => .refl _

theorem alike_of_child? {first second : Value} (hFirst : first.isContainer = true)
    (hSecond : second.isContainer = true)
    (hChild : ∀ key, first.child? key = second.child? key ∨
      ∃ left right, first.child? key = some left ∧ second.child? key = some right ∧
        Alike left right) : Alike first second := by
  intro keys
  cases keys with
  | nil => exact .containers hFirst hSecond
  | cons key rest =>
    rw [at?, at?, step?_of_isContainer hFirst, step?_of_isContainer hSecond]
    rcases hChild key with hSame | ⟨left, right, hLeft, hRight, hAlike⟩
    · rw [hSame]
      exact .refl _
    · rw [hLeft, hRight]
      exact hAlike rest

theorem alike_put {node : Value} (hNode : node.isContainer = true) (key : String)
    {first second : Value} (h : Alike first second) :
    Alike (node.put key first) (node.put key second) := by
  apply alike_of_child? (by rwa [isContainer_put]) (by rwa [isContainer_put])
  intro other
  rw [child?_put hNode, child?_put hNode]
  by_cases hOther : key = other
  · exact .inr ⟨first, second, if_pos hOther, if_pos hOther, h⟩
  · exact .inl (by rw [if_neg hOther, if_neg hOther])

theorem alike_put_put {node : Value} (hNode : node.isContainer = true) {key other : String}
    (hOther : key ≠ other) (first second : Value) :
    Alike ((node.put key first).put other second) ((node.put other second).put key first) := by
  have hKeyPut : (node.put key first).isContainer = true := by rwa [isContainer_put]
  have hOtherPut : (node.put other second).isContainer = true := by rwa [isContainer_put]
  apply alike_of_child? (by rwa [isContainer_put]) (by rwa [isContainer_put])
  intro place
  rw [child?_put hKeyPut, child?_put hOtherPut, child?_put hNode, child?_put hNode]
  left
  by_cases hKey : key = place
  · subst hKey
    rw [if_neg (Ne.symm hOther), if_pos rfl, if_pos rfl]
  · rw [if_neg hKey, if_neg hKey]

section Walks

variable {keys other : List String}

theorem assignAt_conflict_of_parted (h : Parted keys other) (root new next : Value) :
    ((root.assignAt keys new).value.assignAt other next).conflict =
      (root.assignAt other next).conflict := by
  induction h generalizing root with
  | here hFirst rest tail =>
    cases hScalar : root.isScalar with
    | true => rw [assignAt_cons_of_isScalar hScalar]
    | false =>
      rw [assignAt_cons_assignAt_cons hScalar, assignAt_cons hScalar]
      simp only [if_neg hFirst]
  | deeper key _ ih =>
    cases hScalar : root.isScalar with
    | true => rw [assignAt_cons_of_isScalar hScalar]
    | false =>
      rw [assignAt_cons_assignAt_cons hScalar, assignAt_cons hScalar]
      simp only [if_true]
      exact ih (root.held key)

/-- Where both walks enter one slot, they part further down; where they enter two, the writes to
these are seen alike in either order. -/
theorem alike_assignAt_assignAt (h : Parted keys other) (root new next : Value) :
    Alike ((root.assignAt keys new).value.assignAt other next).value
      ((root.assignAt other next).value.assignAt keys new).value := by
  induction h generalizing root with
  | here hFirst rest tail =>
    cases hScalar : root.isScalar with
    | true =>
      simp only [assignAt_cons_of_isScalar hScalar]
      exact .refl root
    | false =>
      simp only [assignAt_cons_assignAt_cons hScalar, if_neg hFirst, if_neg (Ne.symm hFirst)]
      exact alike_put_put (isContainer_opened hScalar) hFirst _ _
  | deeper key _ ih =>
    cases hScalar : root.isScalar with
    | true =>
      simp only [assignAt_cons_of_isScalar hScalar]
      exact .refl root
    | false =>
      simp only [assignAt_cons_assignAt_cons hScalar, if_true, put_put]
      exact alike_put (isContainer_opened hScalar) key (ih (root.held key))

end Walks

/-- Two assignments at keys of which neither are the beginning of the other come to the same in
either order: each has one outcome, and all keys read alike afterwards. -/
theorem set_keys_comm {keys other : List String} (hKeys : ¬keys <+: other)
    (hOther : ¬other <+: keys) (root new next : Value) :
    ((root.set (.keys keys) new).1.set (.keys other) next).2 = (root.set (.keys other) next).2 ∧
    ((root.set (.keys other) next).1.set (.keys keys) new).2 = (root.set (.keys keys) new).2 ∧
    ∀ place, ∃ first second,
      ((root.set (.keys keys) new).1.set (.keys other) next).1.get? (.keys place) = .ok first ∧
      ((root.set (.keys other) next).1.set (.keys keys) new).1.get? (.keys place) = .ok second ∧
      ReadAlike first second := by
  have hParted := parted_of_not_isPrefix hKeys hOther
  simp only [set_keys, get?_keys]
  refine ⟨?_, ?_, fun place => ⟨_, _, rfl, rfl, ?_⟩⟩
  · rw [assignAt_conflict_of_parted hParted]
  · rw [assignAt_conflict_of_parted hParted.symm]
  · exact alike_assignAt_assignAt hParted root new next place

theorem set_keys_comm_converted :
    ((sequence [null, null]).set (.keys ["2"]) null).1.set (.keys ["3"]) (bool true) =
      (sequence [null, null, null, bool true], .ok ()) ∧
    ((sequence [null, null]).set (.keys ["3"]) (bool true)).1.set (.keys ["2"]) null =
      (mapping [("0", null), ("1", null), ("3", bool true), ("2", null)], .ok ()) ∧
    ∃ first second,
      (sequence [null, null, null, bool true]).get? (.keys ["3"]) = .ok first ∧
      (mapping [("0", null), ("1", null), ("3", bool true), ("2", null)]).get? (.keys ["3"]) =
        .ok second ∧
      ReadAlike first second := by
  have hRead := (set_keys_comm (by decide : ¬["2"] <+: ["3"]) (by decide)
    (sequence [null, null]) null (bool true)).2.2 ["3"]
  exact ⟨rfl, rfl, hRead⟩

end Wiring.Value
