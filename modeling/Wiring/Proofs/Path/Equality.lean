import Wiring.Proofs.Path.Reach
import Wiring.Proofs.Value.Equality

/-! # Equal values are read alike

Equal values hold equal values under the same keys, so what is reached through their containers is
equal too. A number that is not one is the only value that does not equal itself, and it spoils each
container that it is reached in. Objects are known by their identity: equality says that a read
comes to the same one, not what is read from it.
-/
namespace Wiring.Value
set_option autoImplicit false

/-- How a path is read in two values: it is malformed, or nothing is found in both, or equal values
are; or both reads come to one object while keys are left. From there on they are the same if the
object holds the same for both. -/
inductive ReadEqually (first second : Value) (path : Path) : Prop
  | malformed {malformed : Path.Malformed} : first.get? path = .error malformed →
    second.get? path = .error malformed → ReadEqually first second path
  | missing : first.get? path = .ok none → second.get? path = .ok none →
    ReadEqually first second path
  | found {x y : Value} : first.get? path = .ok (some x) → second.get? path = .ok (some y) →
    (x == y) = true → ReadEqually first second path
  | asked {front back : List String} {identity : Nat} {xs ys : List (String × Value)}
    {text other : Option String} {x y : Value} : path.keys? = .ok (some (front ++ back)) →
    back ≠ [] → first.reach? front = some (.object identity xs text x) →
    second.reach? front = some (.object identity ys other y) →
    (object identity xs text x = object identity ys other y →
      first.get? path = second.get? path) → ReadEqually first second path

theorem exists_child?_of_beq {x y child : Value} (h : beq x y = true) {key : String}
    (hChild : x.child? key = some child) :
    ∃ other, y.child? key = some other ∧ beq child other = true := by
  rcases beq_iff.mp h with _ | _ | @⟨xs, ys, hItems⟩ | ⟨_, hEntries⟩ | _ | _
  · cases x with
    | null => cases hChild
    | bool b => cases hChild
    | integer n => cases hChild
    | string s => cases hChild
    | bytes b => cases hChild
    | _ => contradiction
  · cases hChild
  · obtain ⟨index, hIndex, hItem⟩ := Option.bind_eq_some_iff.mp hChild
    obtain ⟨hBound, rfl⟩ := List.getElem?_eq_some_iff.mp hItem
    obtain ⟨hLength, hSame⟩ := List.forall₂_iff_get.mp hItems
    have hOther : index < ys.length := hLength ▸ hBound
    refine ⟨ys[index], ?_, hSame index hBound hOther⟩
    rw [child?, hIndex, Option.bind_some, List.getElem?_eq_getElem hOther]
  · exact hEntries key child (Entries.mem_of_get? hChild)
  · cases hChild
  · cases hChild

theorem child?_of_beq {x y : Value} (hX : x.WellFormed) (hY : y.WellFormed) (h : beq x y = true)
    (key : String) : Option.Rel (fun x y => beq x y = true) (x.child? key) (y.child? key) := by
  cases hChild : x.child? key with
  | some child =>
    obtain ⟨other, hOther, hSame⟩ := exists_child?_of_beq h hChild
    rw [hOther]
    exact .some hSame
  | none =>
    cases hOther : y.child? key with
    | none => exact .none
    | some other =>
      obtain ⟨child, hFound, _⟩ := exists_child?_of_beq (beq_symm hX hY h) hOther
      cases hChild.symm.trans hFound

theorem WellFormed.of_child? {value child : Value} (h : value.WellFormed) {key : String}
    (hChild : value.child? key = some child) : child.WellFormed :=
  h.of_mem_entries (h.child?_eq_some_iff.mp hChild)

theorem reach?_of_beq {x y : Value} (hX : x.WellFormed) (hY : y.WellFormed) (h : beq x y = true)
    (keys : List String) :
    Option.Rel (fun x y => beq x y = true) (x.reach? keys) (y.reach? keys) := by
  induction keys generalizing x y with
  | nil => exact .some h
  | cons key rest ih =>
    rw [reach?, reach?]
    have hSame := child?_of_beq hX hY h key
    cases hChild : x.child? key with
    | none =>
      rw [hChild] at hSame
      generalize y.child? key = found at hSame
      cases hSame
      exact .none
    | some child =>
      obtain ⟨other, hOther, hEqual⟩ := exists_child?_of_beq h hChild
      rw [hOther]
      exact ih (hX.of_child? hChild) (hY.of_child? hOther) hEqual

theorem beq_self_of_reach? {value : Value} (hValue : value.WellFormed)
    (h : ∀ keys x, value.reach? keys = some (.float x) → x.isNaN = false) :
    beq value value = true := by
  induction value using induction_on_entries with
  | step value ih =>
    have hChild : ∀ key child, (key, child) ∈ value.entries → beq child child = true := by
      intro key child hMem
      refine ih key child hMem (hValue.of_mem_entries hMem) fun keys x hFound => ?_
      apply h (key :: keys)
      exact reach?_cons_eq_some_iff.mpr ⟨child, hValue.child?_eq_some_iff.mpr hMem, hFound⟩
    apply beq_iff.mpr
    cases value with
    | sequence items =>
      refine .sequence (List.forall₂_same.mpr fun item hItem => ?_)
      obtain ⟨key, hMem⟩ := exists_mem_indexedFrom hItem 0
      rw [← indexed_eq_indexedFrom] at hMem
      exact hChild key item hMem
    | mapping entries =>
      refine .mapping rfl fun key child hMem => ?_
      exact ⟨child, Entries.get?_of_mem hValue.1 hMem, hChild key child hMem⟩
    | float x => exact .float ((Binary64.beq_self_iff x).mpr (h [] x rfl))
    | object identity => exact .object identity
    | thunk identity => exact .thunk identity
    | _ => exact .word rfl

theorem beq_self_iff_reach? {value : Value} (hValue : value.WellFormed) :
    beq value value = true ↔
      ∀ keys x, value.reach? keys = some (.float x) → x.isNaN = false := by
  refine ⟨fun hSelf keys x hFound => ?_, beq_self_of_reach? hValue⟩
  have hSame := reach?_of_beq hValue hValue hSelf keys
  rw [hFound] at hSame
  cases hSame with
  | some hFloat => exact (Binary64.beq_self_iff x).mp hFloat

/-- A read goes through containers only, or comes to an object while keys are left. -/
theorem at?_eq_reach?_or (value : Value) (keys : List String) :
    value.at? keys = value.reach? keys ∨
      ∃ front back identity properties text form, keys = front ++ back ∧ back ≠ [] ∧
        value.reach? front = some (.object identity properties text form) := by
  induction keys generalizing value with
  | nil => exact .inl rfl
  | cons key rest ih =>
    cases hProperty : value.property? key with
    | some property =>
      cases value with
      | object identity properties text form =>
        exact .inr ⟨[], key :: rest, identity, properties, text, form, rfl, List.cons_ne_nil _ _,
          rfl⟩
      | _ => cases hProperty
    | none =>
      rw [at?, step?, hProperty, Option.or_none, reach?]
      cases hChild : value.child? key with
      | none => exact .inl rfl
      | some child =>
        rcases ih child with hSame | ⟨front, back, identity, properties, text, form, rfl, hBack,
          hFound⟩
        · exact .inl hSame
        · refine .inr ⟨key :: front, back, identity, properties, text, form, rfl, hBack, ?_⟩
          exact reach?_cons_eq_some_iff.mpr ⟨child, hChild, hFound⟩

theorem reach?_object_of_beq {x y : Value} (hX : x.WellFormed) (hY : y.WellFormed)
    (h : beq x y = true) {keys : List String} {identity : Nat}
    {properties : List (String × Value)} {text : Option String} {form : Value}
    (hFound : x.reach? keys = some (.object identity properties text form)) :
    ∃ others other value, y.reach? keys = some (.object identity others other value) := by
  have hSame := reach?_of_beq hX hY h keys
  rw [hFound] at hSame
  generalize hOther : y.reach? keys = found at hSame
  cases hSame with
  | some hEqual =>
    obtain ⟨⟨⟩⟩ | _ | _ | _ | _ := beq_iff.mp hEqual
    exact ⟨_, _, _, rfl⟩

theorem readEqually_of_asked {x y : Value} {path : Path} {front back : List String}
    {identity : Nat} {xs ys : List (String × Value)} {text other : Option String}
    {form value : Value} (hKeys : path.keys? = .ok (some (front ++ back))) (hBack : back ≠ [])
    (hX : x.reach? front = some (.object identity xs text form))
    (hY : y.reach? front = some (.object identity ys other value)) : ReadEqually x y path := by
  refine .asked hKeys hBack hX hY fun hObject => ?_
  rw [get?_of_keys? hKeys, get?_of_keys? hKeys, at?_append, at?_append, at?_of_reach? hX,
    at?_of_reach? hY, hObject]

theorem readEqually_of_beq {x y : Value} (hX : x.WellFormed) (hY : y.WellFormed)
    (h : beq x y = true) (path : Path) : ReadEqually x y path := by
  cases hKeys : path.keys? with
  | error malformed => exact .malformed (by rw [get?, hKeys]; rfl) (by rw [get?, hKeys]; rfl)
  | ok keys =>
    cases keys with
    | none => exact .found (by rw [get?, hKeys]; rfl) (by rw [get?, hKeys]; rfl) h
    | some keys =>
      rcases at?_eq_reach?_or x keys with hFirst | ⟨front, back, _, _, _, _, rfl, hBack, hFound⟩
      · rcases at?_eq_reach?_or y keys with hSecond | ⟨front, back, _, _, _, _, rfl, hBack, hFound⟩
        · have hSame := reach?_of_beq hX hY h keys
          rw [← hFirst, ← hSecond] at hSame
          have hGet := get?_of_keys? hKeys x
          have hOther := get?_of_keys? hKeys y
          generalize x.at? keys = found at hSame hGet
          generalize y.at? keys = other at hSame hOther
          cases hSame with
          | none => exact .missing hGet hOther
          | some hEqual => exact .found hGet hOther hEqual
        · obtain ⟨_, _, _, hOther⟩ := reach?_object_of_beq hY hX (beq_symm hX hY h) hFound
          exact readEqually_of_asked hKeys hBack hOther hFound
      · obtain ⟨_, _, _, hOther⟩ := reach?_object_of_beq hX hY h hFound
        exact readEqually_of_asked hKeys hBack hFound hOther

/-- Equality is symmetric and transitive. A value equals itself exactly if no number that is none is
reached through its containers. Equal values are read equally at every path. -/
theorem beq_equivalence {a b : Value} (hA : a.WellFormed) (hB : b.WellFormed) :
    ((a == b) = true → (b == a) = true) ∧
    (∀ c, (a == b) = true → (b == c) = true → (a == c) = true) ∧
    ((a == a) = true ↔ ∀ keys x, a.reach? keys = some (.float x) → x.isNaN = false) ∧
    ((a == b) = true → ∀ path, ReadEqually a b path) :=
  ⟨beq_symm hA hB, fun _ => beq_trans, beq_self_iff_reach? hA, readEqually_of_beq hA hB⟩

theorem beq_equivalence_zeros :
    let a := sequence [mapping [("x", float (.zero false)), ("y", thunk 0 null)]]
    let b := sequence [mapping [("y", thunk 0 null), ("x", float (.zero true))]]
    a.WellFormed ∧ b.WellFormed ∧ (a == b) = true ∧ (b == a) = true ∧
      (∀ keys x, a.reach? keys = some (.float x) → x.isNaN = false) ∧
      ReadEqually a b (.keys ["0", "x"]) := by
  intro a b
  have hA : a.WellFormed := by
    simp [a, WellFormed, EntriesWellFormed, ItemsWellFormed, Entries.keys]
  have hB : b.WellFormed := by
    simp [b, WellFormed, EntriesWellFormed, ItemsWellFormed, Entries.keys]
  have hSame : (a == b) = true := by decide
  have hSelf : (a == a) = true := by decide
  obtain ⟨hSymm, _, hNumbers, hReads⟩ := beq_equivalence hA hB
  exact ⟨hA, hB, hSame, hSymm hSame, hNumbers.mp hSelf, hReads hSame _⟩

example : (sequence [float .canonicalNaN] == sequence [float .canonicalNaN]) = false := by decide

end Wiring.Value
