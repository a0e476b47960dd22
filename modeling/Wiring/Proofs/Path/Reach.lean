import Wiring.Path.Basic
import Wiring.Proofs.Path.Slot

/-! # Descending through containers

Assignment descends through containers only: an object is read by property along a path, but its
properties are no slots. A scalar on the way stops a descent, and where none does, reading a path
and descending along it find the same value.
-/
namespace Wiring.Value
set_option autoImplicit false

/-- The value that keys lead to through containers alone. -/
def reach? (value : Value) : List String → Option Value
  | [] => some value
  | key :: rest => (value.child? key).bind (·.reach? rest)

theorem reach?_append (value : Value) (first second : List String) :
    value.reach? (first ++ second) = (value.reach? first).bind (·.reach? second) := by
  induction first generalizing value with
  | nil => rfl
  | cons key rest ih =>
    simp only [List.cons_append, reach?, Option.bind_assoc]
    exact congrArg _ (funext fun child => ih child)

theorem reach?_cons_eq_some_iff {value found : Value} {key : String} {rest : List String} :
    value.reach? (key :: rest) = some found ↔
      ∃ child, value.child? key = some child ∧ child.reach? rest = some found :=
  Option.bind_eq_some_iff

theorem reach?_cons_of_not_isContainer {value : Value} (h : value.isContainer = false)
    (key : String) (rest : List String) : value.reach? (key :: rest) = none := by
  rw [reach?, child?_of_not_isContainer h, Option.bind_none]

theorem at?_of_reach? {value found : Value} {keys : List String}
    (h : value.reach? keys = some found) : value.at? keys = some found := by
  induction keys generalizing value with
  | nil => exact h
  | cons key rest ih =>
    obtain ⟨child, hChild, hRest⟩ := reach?_cons_eq_some_iff.mp h
    rw [at?, step?, hChild, Option.some_or, Option.bind_some]
    exact ih hRest

theorem step?_of_isContainer {value : Value} (h : value.isContainer = true) (key : String) :
    value.step? key = value.child? key := by
  rw [step?, property?_of_isContainer h, Option.or_none]

/-- Neither null nor a container, so that it has no slots and cannot be given any. -/
def isScalar (value : Value) : Bool := !value.isNull && !value.isContainer

theorem isScalar_of_isContainer {value : Value} (h : value.isContainer = true) :
    value.isScalar = false := by
  rw [isScalar, h, Bool.not_true, Bool.and_false]

theorem isNull_of_isContainer {value : Value} (h : value.isContainer = true) :
    value.isNull = false := by
  cases value <;> simp_all [isContainer, isNull]

theorem isNull_of_isScalar {value : Value} (h : value.isScalar = true) : value.isNull = false := by
  cases value <;> simp_all [isScalar, isNull]

theorem isContainer_of_isScalar {value : Value} (h : value.isScalar = true) :
    value.isContainer = false := by
  cases value <;> simp_all [isScalar, isContainer]

theorem eq_null_of_isNull {value : Value} (h : value.isNull = true) : value = null := by
  cases value <;> simp_all [isNull]

theorem eq_null_or_isContainer {value : Value} (h : value.isScalar = false) :
    value = null ∨ value.isContainer = true := by
  cases hNull : value.isNull with
  | true => exact .inl (eq_null_of_isNull hNull)
  | false =>
    rw [isScalar, hNull] at h
    exact .inr (by simpa using h)

/-- A proper part of the keys, the empty one included, leads to a scalar. -/
def Blocked (root : Value) (keys : List String) : Prop :=
  ∃ front back found, front ++ back = keys ∧ back ≠ [] ∧
    root.reach? front = some found ∧ found.isScalar = true

theorem not_blocked_nil (root : Value) : ¬Blocked root [] := by
  rintro ⟨front, back, _, hKeys, hBack, _, _⟩
  exact hBack (List.append_eq_nil_iff.mp hKeys).2

theorem not_blocked_null (keys : List String) : ¬Blocked null keys := by
  rintro ⟨front, back, found, _, _, hFound, hScalar⟩
  cases front with
  | nil =>
    cases hFound
    cases hScalar
  | cons key rest => cases hFound

theorem child?_of_blocked_held {node : Value} {key : String} {rest : List String}
    (h : Blocked (node.held key) rest) : node.child? key = some (node.held key) := by
  apply child?_of_held_ne_null
  intro hNull
  rw [hNull] at h
  exact not_blocked_null rest h

theorem blocked_cons_iff {node : Value} {key : String} {rest : List String} :
    Blocked node (key :: rest) ↔ node.isScalar = true ∨ Blocked (node.held key) rest := by
  constructor
  · rintro ⟨front, back, found, hKeys, hBack, hFound, hScalar⟩
    cases front with
    | nil =>
      cases hFound
      exact .inl hScalar
    | cons first front =>
      obtain ⟨rfl, hTail⟩ := List.cons.inj hKeys
      obtain ⟨child, hChild, hFound⟩ := reach?_cons_eq_some_iff.mp hFound
      rw [held_of_child? hChild]
      exact .inr ⟨front, back, found, hTail, hBack, hFound, hScalar⟩
  · rintro (hScalar | h)
    · exact ⟨[], key :: rest, node, rfl, List.cons_ne_nil _ _, rfl, hScalar⟩
    · have hChild := child?_of_blocked_held h
      obtain ⟨front, back, found, hKeys, hBack, hFound, hScalar⟩ := h
      refine ⟨key :: front, back, found, congrArg _ hKeys, hBack, ?_, hScalar⟩
      exact reach?_cons_eq_some_iff.mpr ⟨_, hChild, hFound⟩

theorem not_blocked_cons_iff {node : Value} {key : String} {rest : List String} :
    ¬Blocked node (key :: rest) ↔ node.isScalar = false ∧ ¬Blocked (node.held key) rest := by
  rw [blocked_cons_iff, not_or, Bool.not_eq_true]

theorem at?_eq_reach? {root : Value} {keys : List String} (h : ¬Blocked root keys) :
    root.at? keys = root.reach? keys := by
  induction keys generalizing root with
  | nil => rfl
  | cons key rest ih =>
    obtain ⟨hScalar, hRest⟩ := not_blocked_cons_iff.mp h
    rcases eq_null_or_isContainer hScalar with rfl | hRoot
    · rfl
    · rw [at?, reach?, step?_of_isContainer hRoot]
      cases hChild : root.child? key with
      | none => rfl
      | some child =>
        rw [held_of_child? hChild] at hRest
        exact ih hRest

end Wiring.Value
