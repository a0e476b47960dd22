import Wiring.Proofs.Path.Assignment

/-! # Growth under assignments

Whatever is assigned, and wherever a merge stops, each place that containers led to is still there:
a container at it stays a container and a mapping stays a mapping. A sequence may become a mapping,
and what is no container may be overwritten.
-/
namespace Wiring.Value
set_option autoImplicit false

def isMapping : Value → Bool
  | mapping _ => true
  | _ => false

/-- A container is followed by a container, and a mapping by a mapping. -/
structure KeepsKind (before after : Value) : Prop where
  container : before.isContainer = true → after.isContainer = true
  mapping : before.isMapping = true → after.isMapping = true

theorem KeepsKind.refl (value : Value) : KeepsKind value value := ⟨id, id⟩

theorem KeepsKind.trans {first second third : Value} (h : KeepsKind first second)
    (hNext : KeepsKind second third) : KeepsKind first third :=
  ⟨hNext.container ∘ h.container, hNext.mapping ∘ h.mapping⟩

theorem keepsKind_put (node : Value) (key : String) (value : Value) :
    KeepsKind node (node.put key value) := by
  constructor
  · intro hNode
    rwa [isContainer_put]
  · intro hNode
    cases node with
    | mapping entries => rfl
    | _ => cases hNode

/-- All that containers lead to before is still led to after, and keeps its kind. -/
def Grows (before after : Value) : Prop :=
  ∀ keys old, before.reach? keys = some old →
    ∃ new, after.reach? keys = some new ∧ KeepsKind old new

theorem Grows.refl (value : Value) : Grows value value :=
  fun _ old h => ⟨old, h, .refl old⟩

theorem Grows.trans {first second third : Value} (h : Grows first second)
    (hNext : Grows second third) : Grows first third := by
  intro keys old hOld
  obtain ⟨middle, hMiddle, hKind⟩ := h keys old hOld
  obtain ⟨new, hNew, hNextKind⟩ := hNext keys middle hMiddle
  exact ⟨new, hNew, hKind.trans hNextKind⟩

theorem grows_of_child? {before after : Value} (hKind : KeepsKind before after)
    (hChild : ∀ key old, before.child? key = some old →
      ∃ new, after.child? key = some new ∧ Grows old new) : Grows before after := by
  intro keys old hOld
  cases keys with
  | nil =>
    cases hOld
    exact ⟨after, rfl, hKind⟩
  | cons key rest =>
    obtain ⟨child, hBefore, hRest⟩ := reach?_cons_eq_some_iff.mp hOld
    obtain ⟨next, hAfter, hGrows⟩ := hChild key child hBefore
    obtain ⟨new, hNew, hNewKind⟩ := hGrows rest old hRest
    exact ⟨new, reach?_cons_eq_some_iff.mpr ⟨next, hAfter, hNew⟩, hNewKind⟩

theorem grows_of_not_isContainer {before : Value} (h : before.isContainer = false)
    (after : Value) : Grows before after := by
  apply grows_of_child?
  · constructor <;> intro hKind
    · rw [h] at hKind
      cases hKind
    · cases before <;> simp_all [isContainer, isMapping]
  · intro key old hOld
    rw [child?_of_not_isContainer h] at hOld
    cases hOld

theorem grows_put {node : Value} (hNode : node.isContainer = true) {key : String} {value : Value}
    (h : Grows (node.held key) value) : Grows node (node.put key value) := by
  apply grows_of_child? (keepsKind_put node key value)
  intro other old hOld
  rw [child?_put hNode]
  by_cases hOther : key = other
  · subst hOther
    rw [held_of_child? hOld] at h
    exact ⟨value, if_pos rfl, h⟩
  · exact ⟨old, by rwa [if_neg hOther], .refl old⟩

theorem grows_mergeEntries {entries : List (String × Value)}
    (hEntries : ∀ key new, (key, new) ∈ entries → ∀ old, Grows old (assign old new).value)
    {node : Value} (hNode : node.isContainer = true) :
    Grows node (mergeEntries node entries).value := by
  induction entries generalizing node with
  | nil =>
    rw [mergeEntries]
    exact .refl node
  | cons entry rest ih =>
    obtain ⟨key, new⟩ := entry
    have hPut := grows_put hNode (hEntries key new List.mem_cons_self (node.held key))
    rw [mergeEntries]
    split
    · exact hPut
    · apply hPut.trans
      apply ih _ (by rwa [isContainer_put])
      exact fun other value hMem => hEntries other value (List.mem_cons_of_mem _ hMem)

theorem grows_assign (old new : Value) : Grows old (assign old new).value := by
  induction new using induction_on_entries generalizing old with
  | step new ih =>
    rcases assign_cases old new with ⟨hAssign, hKind⟩ | ⟨hAssign, _⟩ | ⟨hAssign, _⟩ |
      ⟨hAssign, hOld, _⟩
    · have hOld : old.isContainer = false := by
        rcases hKind with rfl | ⟨hOld, _⟩
        · rfl
        · exact hOld
      exact grows_of_not_isContainer hOld _
    · rw [hAssign]
      exact .refl old
    · rw [hAssign]
      exact .refl old
    · rw [hAssign]
      exact grows_mergeEntries ih hOld

theorem grows_opened (node : Value) : Grows node node.opened := by
  cases hNode : node.isContainer with
  | true =>
    rw [opened_of_isContainer hNode]
    exact .refl node
  | false => exact grows_of_not_isContainer hNode _

theorem grows_assignAt (root : Value) (keys : List String) (new : Value) :
    Grows root (root.assignAt keys new).value := by
  induction keys generalizing root with
  | nil => exact grows_assign root new
  | cons key rest ih =>
    cases hScalar : root.isScalar with
    | true =>
      rw [assignAt_cons_of_isScalar hScalar]
      exact .refl root
    | false =>
      have hSlot : Grows (root.opened.held key) ((root.held key).assignAt rest new).value := by
        rw [held_opened]
        exact ih (root.held key)
      rw [assignAt_cons hScalar]
      exact (grows_opened root).trans (grows_put (isContainer_opened hScalar) hSlot)

theorem grows_set (root : Value) (path : Path) (new : Value) :
    Grows root (root.set path new).1 := by
  rcases set_cases path with ⟨keys, hSet⟩ | ⟨failure, hSet⟩
  · rw [hSet]
    exact grows_assignAt root keys new
  · rw [hSet]
    exact .refl root

def setAll (root : Value) (steps : List (Path × Value)) : Value :=
  steps.foldl (fun root step => (root.set step.1 step.2).1) root

/-- No run of assignments, successful or failed, takes a place away, puts anything but a container
where there was one, or makes a sequence of a mapping. -/
theorem grows_setAll (root : Value) (steps : List (Path × Value)) :
    Grows root (root.setAll steps) := by
  induction steps generalizing root with
  | nil => exact .refl root
  | cons step rest ih => exact (grows_set root step.1 step.2).trans (ih _)

end Wiring.Value
