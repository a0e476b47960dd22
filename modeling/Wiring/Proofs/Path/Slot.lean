import Wiring.Proofs.Value.Entries

/-! # Slots of a container

A container is read and written one slot at a time. A write is read back at its own key and is seen
at no other, also where it makes a mapping of a sequence: a key that is not the decimal text of a
position reads nothing from a sequence, so the conversion adds no key and hides none.
-/
namespace Wiring.Value
set_option autoImplicit false

theorem child?_of_not_isContainer {node : Value} (h : node.isContainer = false) (key : String) :
    node.child? key = none := by
  cases node <;> simp_all [isContainer, child?]

theorem isContainer_of_child? {node child : Value} {key : String}
    (h : node.child? key = some child) : node.isContainer = true := by
  cases node <;> simp_all [isContainer, child?]

theorem property?_of_isContainer {node : Value} (h : node.isContainer = true) (key : String) :
    node.property? key = none := by
  cases node <;> simp_all [isContainer, property?]

theorem put_sequence_of_lt {items : List Value} {key : String} {position : Nat}
    (hKey : Position.ofText? key = some position) (h : position < items.length) (value : Value) :
    (sequence items).put key value = sequence (items.set position value) := by
  simp only [put, hKey, if_pos h]

theorem put_sequence_length {items : List Value} {key : String}
    (hKey : Position.ofText? key = some items.length) (value : Value) :
    (sequence items).put key value = sequence (items ++ [value]) := by
  simp only [put, hKey, Nat.lt_irrefl, if_false, if_true]

/-- A sequence is overwritten at a position that it has, grows at the next one and becomes a mapping
at any other key. -/
theorem put_sequence_cases (items : List Value) (key : String) :
    (∃ position, Position.ofText? key = some position ∧ position < items.length) ∨
      Position.ofText? key = some items.length ∨
      ((sequence items).child? key = none ∧ ∀ value,
        (sequence items).put key value = mapping (Entries.set key value (indexed items))) := by
  cases hKey : Position.ofText? key with
  | none => exact .inr (.inr ⟨by simp [child?, hKey], fun value => by simp only [put, hKey]⟩)
  | some position =>
    rcases Nat.lt_trichotomy position items.length with h | h | h
    · exact .inl ⟨position, rfl, h⟩
    · exact .inr (.inl (by rw [h]))
    · refine .inr (.inr ⟨?_, fun value => ?_⟩)
      · simp only [child?, hKey, Option.bind_some]
        exact List.getElem?_eq_none (by omega)
      · simp only [put, hKey, if_neg (show ¬position < items.length by omega),
          if_neg (show ¬position = items.length by omega)]

theorem isContainer_put (node : Value) (key : String) (value : Value) :
    (node.put key value).isContainer = node.isContainer := by
  cases node with
  | sequence items =>
    rcases put_sequence_cases items key with ⟨position, hKey, h⟩ | hKey | ⟨_, hPut⟩
    · rw [put_sequence_of_lt hKey h]
      rfl
    · rw [put_sequence_length hKey]
      rfl
    · rw [hPut]
      rfl
  | _ => rfl

theorem child?_sequence_set {items : List Value} {key : String} {position : Nat}
    (hKey : Position.ofText? key = some position) (h : position < items.length) (other : String)
    (value : Value) :
    (sequence (items.set position value)).child? other =
      if key = other then some value else (sequence items).child? other := by
  by_cases hOther : key = other
  · subst hOther
    simp [child?, hKey, h]
  · rw [if_neg hOther]
    cases hIndex : Position.ofText? other with
    | none => simp [child?, hIndex]
    | some index =>
      have hNe : position ≠ index := by
        rintro rfl
        exact hOther (Position.eq_of_ofText? hKey hIndex)
      simp only [child?, hIndex, Option.bind_some, List.getElem?_set_ne hNe]

theorem child?_sequence_concat {items : List Value} {key : String}
    (hKey : Position.ofText? key = some items.length) (other : String) (value : Value) :
    (sequence (items ++ [value])).child? other =
      if key = other then some value else (sequence items).child? other := by
  by_cases hOther : key = other
  · subst hOther
    simp [child?, hKey]
  · rw [if_neg hOther]
    cases hIndex : Position.ofText? other with
    | none => simp [child?, hIndex]
    | some index =>
      have hNe : index ≠ items.length := by
        rintro rfl
        exact hOther (Position.eq_of_ofText? hKey hIndex)
      simp only [child?, hIndex, Option.bind_some]
      by_cases hLt : index < items.length
      · rw [List.getElem?_append_left hLt]
      · have hLength : (items ++ [value]).length ≤ index := by
          rw [List.length_append, List.length_singleton]
          omega
        rw [List.getElem?_eq_none hLength, List.getElem?_eq_none (Nat.le_of_not_lt hLt)]

theorem child?_put {node : Value} (hNode : node.isContainer = true) (key other : String)
    (value : Value) :
    (node.put key value).child? other = if key = other then some value else node.child? other := by
  rcases (isContainer_iff node).mp hNode with ⟨items, rfl⟩ | ⟨entries, rfl⟩
  · rcases put_sequence_cases items key with ⟨position, hKey, h⟩ | hKey | ⟨_, hPut⟩
    · rw [put_sequence_of_lt hKey h, child?_sequence_set hKey h]
    · rw [put_sequence_length hKey, child?_sequence_concat hKey]
    · rw [hPut, child?_eq_get?_entries (sequence items), child?, Entries.get?_set]
      rfl
  · simp only [put, child?, Entries.get?_set]

theorem put_put (node : Value) (key : String) (first second : Value) :
    (node.put key first).put key second = node.put key second := by
  cases node with
  | sequence items =>
    rcases put_sequence_cases items key with ⟨position, hKey, h⟩ | hKey | ⟨_, hPut⟩
    · rw [put_sequence_of_lt hKey h, put_sequence_of_lt hKey h,
        put_sequence_of_lt hKey (by rwa [List.length_set]), List.set_set]
    · rw [put_sequence_length hKey, put_sequence_length hKey,
        put_sequence_of_lt hKey (by simp), List.set_append_right _ _ (Nat.le_refl _)]
      simp
    · rw [hPut, hPut, put, Entries.set_set]
  | mapping entries => simp only [put, Entries.set_set]
  | _ => rfl

theorem put_of_child? {node : Value} {key : String} {value : Value}
    (h : node.child? key = some value) : node.put key value = node := by
  cases node with
  | sequence items =>
    rcases put_sequence_cases items key with ⟨position, hKey, hLt⟩ | hKey | ⟨hChild, _⟩
    · rw [put_sequence_of_lt hKey hLt]
      simp only [child?, hKey, Option.bind_some] at h
      obtain ⟨_, hItem⟩ := List.getElem?_eq_some_iff.mp h
      rw [← hItem, List.set_getElem_self]
    · simp [child?, hKey] at h
    · rw [hChild] at h
      cases h
  | mapping entries => rw [put, Entries.set_of_get? h]
  | _ => cases h

theorem held_of_child? {node : Value} {key : String} {value : Value}
    (h : node.child? key = some value) : node.held key = value := by
  rw [held, h, Option.getD_some]

theorem held_of_child?_eq_none {node : Value} {key : String} (h : node.child? key = none) :
    node.held key = null := by
  rw [held, h, Option.getD_none]

theorem child?_of_held_ne_null {node : Value} {key : String} (h : node.held key ≠ null) :
    node.child? key = some (node.held key) := by
  cases hChild : node.child? key with
  | none => exact absurd (held_of_child?_eq_none hChild) h
  | some value => rw [held_of_child? hChild]

theorem held_put {node : Value} (hNode : node.isContainer = true) (key other : String)
    (value : Value) :
    (node.put key value).held other = if key = other then value else node.held other := by
  rw [held, child?_put hNode]
  split <;> rfl

end Wiring.Value
