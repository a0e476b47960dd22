import Wiring.Proofs.Path.Merge

/-! # The walk of an assignment

A walk is decided before it changes anything. Either a scalar stands in its way, and the value stays
as it is; or it ends in one assignment to the slot at its keys, which holds null where nothing is
yet. Opening nulls, growing sequences and converting them are seen at no key list that parts from
the keys of the walk.
-/
namespace Wiring.Value
set_option autoImplicit false

theorem isContainer_opened {node : Value} (h : node.isScalar = false) :
    node.opened.isContainer = true := by
  rcases eq_null_or_isContainer h with rfl | hNode
  · rfl
  · rwa [opened_of_isContainer hNode]

theorem child?_opened (node : Value) (key : String) :
    node.opened.child? key = node.child? key := by
  cases node <;> rfl

theorem held_opened (node : Value) (key : String) : node.opened.held key = node.held key := by
  rw [held, child?_opened, held]

theorem assignAt_cons_of_isScalar {node : Value} (h : node.isScalar = true) (key : String)
    (rest : List String) (new : Value) :
    node.assignAt (key :: rest) new = ⟨node, some .descendThroughScalar⟩ := by
  rw [assignAt, opened, isNull_of_isScalar h]
  simp [isContainer_of_isScalar h]

theorem assignAt_cons {node : Value} (h : node.isScalar = false) (key : String)
    (rest : List String) (new : Value) :
    node.assignAt (key :: rest) new =
      ⟨node.opened.put key ((node.held key).assignAt rest new).value,
        ((node.held key).assignAt rest new).conflict⟩ := by
  rw [assignAt]
  simp only [isContainer_opened h, if_true, held_opened]

theorem assignAt_of_blocked {root : Value} {keys : List String} (h : Blocked root keys)
    (new : Value) : root.assignAt keys new = ⟨root, some .descendThroughScalar⟩ := by
  induction keys generalizing root with
  | nil => exact absurd h (not_blocked_nil root)
  | cons key rest ih =>
    cases hScalar : root.isScalar with
    | true => exact assignAt_cons_of_isScalar hScalar key rest new
    | false =>
      rcases blocked_cons_iff.mp h with hRoot | hRest
      · rw [hScalar] at hRoot
        cases hRoot
      · have hChild := child?_of_blocked_held hRest
        rw [assignAt_cons hScalar, ih hRest, opened_of_isContainer (isContainer_of_child? hChild),
          put_of_child? hChild]

/-- A second walk meets what the first one left in the slot that both enter, and what was there
before in any other. -/
theorem assignAt_cons_assignAt_cons {root : Value} (h : root.isScalar = false)
    (first second : String) (front back : List String) (new next : Value) :
    (root.assignAt (first :: front) new).value.assignAt (second :: back) next =
      let entered := ((root.held first).assignAt front new).value
      let slot := (if first = second then entered else root.held second).assignAt back next
      ⟨(root.opened.put first entered).put second slot.value, slot.conflict⟩ := by
  have hOpened := isContainer_opened h
  have hPut : (root.opened.put first ((root.held first).assignAt front new).value).isContainer =
      true := by
    rwa [isContainer_put]
  rw [assignAt_cons h, assignAt_cons (isScalar_of_isContainer hPut), opened_of_isContainer hPut,
    held_put hOpened, held_opened]

def slot (root : Value) (keys : List String) : Value := (root.reach? keys).getD null

theorem slot_of_reach? {root found : Value} {keys : List String}
    (h : root.reach? keys = some found) : root.slot keys = found := by
  rw [slot, h, Option.getD_some]

theorem slot_null (keys : List String) : null.slot keys = null := by
  cases keys <;> rfl

theorem slot_cons (root : Value) (key : String) (rest : List String) :
    root.slot (key :: rest) = (root.held key).slot rest := by
  cases hChild : root.child? key with
  | none => rw [held_of_child?_eq_none hChild, slot_null, slot, reach?, hChild]; rfl
  | some child => rw [held_of_child? hChild, slot, slot, reach?, hChild, Option.bind_some]

theorem assignAt_conflict {root : Value} {keys : List String} (h : ¬Blocked root keys)
    (new : Value) : (root.assignAt keys new).conflict = (assign (root.slot keys) new).conflict := by
  induction keys generalizing root with
  | nil => rfl
  | cons key rest ih =>
    obtain ⟨hScalar, hRest⟩ := not_blocked_cons_iff.mp h
    rw [assignAt_cons hScalar, slot_cons]
    exact ih hRest

theorem reach?_assignAt {root : Value} {keys : List String} (h : ¬Blocked root keys)
    (new : Value) :
    (root.assignAt keys new).value.reach? keys = some (assign (root.slot keys) new).value := by
  induction keys generalizing root with
  | nil => rfl
  | cons key rest ih =>
    obtain ⟨hScalar, hRest⟩ := not_blocked_cons_iff.mp h
    rw [assignAt_cons hScalar, slot_cons, reach?, child?_put (isContainer_opened hScalar),
      if_pos rfl, Option.bind_some]
    exact ih hRest

/-- Keys that agree up to some place and differ there. -/
inductive Parted : List String → List String → Prop where
  | here {key first : String} (h : key ≠ first) (rest tail : List String) :
      Parted (key :: rest) (first :: tail)
  | deeper (key : String) {rest tail : List String} (h : Parted rest tail) :
      Parted (key :: rest) (key :: tail)

theorem parted_of_not_isPrefix {keys other : List String} (hKeys : ¬keys <+: other)
    (hOther : ¬other <+: keys) : Parted keys other := by
  induction keys generalizing other with
  | nil => exact absurd List.nil_prefix hKeys
  | cons key rest ih =>
    cases other with
    | nil => exact absurd List.nil_prefix hOther
    | cons first tail =>
      by_cases hFirst : key = first
      · subst hFirst
        rw [List.prefix_cons_inj] at hKeys hOther
        exact .deeper key (ih hKeys hOther)
      · exact .here hFirst rest tail

theorem Parted.symm {keys other : List String} (h : Parted keys other) : Parted other keys := by
  induction h with
  | here hFirst rest tail => exact .here (Ne.symm hFirst) tail rest
  | deeper key _ ih => exact .deeper key ih

theorem at?_cons_of_not_isScalar {root : Value} (h : root.isScalar = false) (key : String)
    (rest : List String) : root.at? (key :: rest) = (root.child? key).bind (·.at? rest) := by
  rcases eq_null_or_isContainer h with rfl | hRoot
  · rfl
  · rw [at?, step?_of_isContainer hRoot]

theorem at?_assignAt_cons {root : Value} (h : root.isScalar = false) (key first : String)
    (rest tail : List String) (new : Value) :
    (root.assignAt (key :: rest) new).value.at? (first :: tail) =
      (if key = first then some ((root.held key).assignAt rest new).value
        else root.child? first).bind (·.at? tail) := by
  have hOpened := isContainer_opened h
  rw [assignAt_cons h, at?, step?_of_isContainer (by rwa [isContainer_put]), child?_put hOpened,
    child?_opened]

theorem at?_assignAt_of_parted {keys other : List String} (h : Parted keys other)
    (root new : Value) : (root.assignAt keys new).value.at? other = root.at? other := by
  induction h generalizing root with
  | here hFirst rest tail =>
    cases hScalar : root.isScalar with
    | true => rw [assignAt_cons_of_isScalar hScalar]
    | false => rw [at?_assignAt_cons hScalar, if_neg hFirst, at?_cons_of_not_isScalar hScalar]
  | deeper key hRest ih =>
    cases hScalar : root.isScalar with
    | true => rw [assignAt_cons_of_isScalar hScalar]
    | false =>
      rw [at?_assignAt_cons hScalar, if_pos rfl, Option.bind_some, ih,
        at?_cons_of_not_isScalar hScalar]
      cases hChild : root.child? key with
      | some child => rw [held_of_child? hChild, Option.bind_some]
      | none =>
        rw [held_of_child?_eq_none hChild, Option.bind_none]
        cases hRest <;> rfl

theorem at?_assignAt_of_not_prefix {root : Value} {keys other : List String}
    (hKeys : ¬keys <+: other) (hOther : ¬other <+: keys) (new : Value) :
    (root.assignAt keys new).value.at? other = root.at? other :=
  at?_assignAt_of_parted (parted_of_not_isPrefix hKeys hOther) root new

def replace (root : Value) (keys : List String) (value : Value) : Value :=
  match keys with
  | [] => value
  | key :: rest => root.put key ((root.held key).replace rest value)

theorem replace_of_reach? {root old : Value} {keys : List String}
    (h : root.reach? keys = some old) : root.replace keys old = root := by
  induction keys generalizing root with
  | nil => exact (Option.some.inj h).symm
  | cons key rest ih =>
    obtain ⟨child, hChild, hRest⟩ := reach?_cons_eq_some_iff.mp h
    rw [replace, held_of_child? hChild, ih hRest, put_of_child? hChild]

theorem reach?_replace {root old : Value} {keys : List String}
    (h : root.reach? keys = some old) (value : Value) :
    (root.replace keys value).reach? keys = some value := by
  induction keys generalizing root with
  | nil => rfl
  | cons key rest ih =>
    obtain ⟨child, hChild, hRest⟩ := reach?_cons_eq_some_iff.mp h
    rw [replace, held_of_child? hChild, reach?, child?_put (isContainer_of_child? hChild),
      if_pos rfl, Option.bind_some, ih hRest]

theorem replace_replace {root old : Value} {keys : List String}
    (h : root.reach? keys = some old) (first second : Value) :
    (root.replace keys first).replace keys second = root.replace keys second := by
  induction keys generalizing root with
  | nil => rfl
  | cons key rest ih =>
    obtain ⟨child, hChild, hRest⟩ := reach?_cons_eq_some_iff.mp h
    rw [replace, replace, replace, held_put (isContainer_of_child? hChild), if_pos rfl, put_put,
      held_of_child? hChild, ih hRest]

/-- A walk that starts where something is changes that and nothing else. -/
theorem assignAt_append {root old : Value} {keys : List String}
    (h : root.reach? keys = some old) (rest : List String) (new : Value) :
    root.assignAt (keys ++ rest) new =
      ⟨root.replace keys (old.assignAt rest new).value, (old.assignAt rest new).conflict⟩ := by
  induction keys generalizing root with
  | nil =>
    cases h
    rfl
  | cons key tail ih =>
    obtain ⟨child, hChild, hTail⟩ := reach?_cons_eq_some_iff.mp h
    have hRoot := isContainer_of_child? hChild
    rw [List.cons_append, assignAt_cons (isScalar_of_isContainer hRoot),
      opened_of_isContainer hRoot, held_of_child? hChild, ih hTail, replace, held_of_child? hChild]

end Wiring.Value
