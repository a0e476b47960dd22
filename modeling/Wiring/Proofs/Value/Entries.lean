import Wiring.Path.Assign

/-! # Containers as entries

A sequence is read like a mapping whose keys are the decimal texts of its positions. What is said
of the entries of a container is said of both kinds at once, and values are taken apart by
induction along entries.
-/
namespace Wiring.Value
set_option autoImplicit false

def indexedFrom (position : Nat) : List Value → List (String × Value)
  | [] => []
  | item :: rest => (Position.text position, item) :: indexedFrom (position + 1) rest

theorem indexedFrom_eq_map (position : Nat) (items : List Value) :
    indexedFrom position items =
      (items.zipIdx position).map fun (item, index) => (Position.text index, item) := by
  induction items generalizing position with
  | nil => rfl
  | cons item rest ih => rw [indexedFrom, ih, List.zipIdx_cons, List.map_cons]

theorem indexed_eq_indexedFrom (items : List Value) : indexed items = indexedFrom 0 items :=
  (indexedFrom_eq_map 0 items).symm

theorem get?_indexedFrom (key : String) (position : Nat) (items : List Value) :
    Entries.get? key (indexedFrom position items) =
      (Position.ofText? key).bind fun index =>
        if position ≤ index then items[index - position]? else none := by
  induction items generalizing position with
  | nil => cases Position.ofText? key <;> simp [indexedFrom, Entries.get?]
  | cons item rest ih =>
    rw [indexedFrom, Entries.get?, ih]
    by_cases hKey : Position.text position = key
    · rw [if_pos hKey, ← hKey, Position.ofText?_text]
      simp
    · rw [if_neg hKey]
      cases hIndex : Position.ofText? key with
      | none => rfl
      | some index =>
        have hNe : index ≠ position := fun h => hKey (h ▸ Position.text_of_ofText? hIndex)
        simp only [Option.bind_some]
        by_cases hLe : position + 1 ≤ index
        · have hShift : index - position = index - (position + 1) + 1 := by omega
          rw [if_pos hLe, if_pos (by omega), hShift, List.getElem?_cons_succ]
        · rw [if_neg hLe, if_neg (by omega)]

theorem keys_indexedFrom (position : Nat) (items : List Value) :
    Entries.keys (indexedFrom position items) =
      (List.range' position items.length).map Position.text := by
  induction items generalizing position with
  | nil => rfl
  | cons item rest ih =>
    have ih := ih (position + 1)
    simp only [Entries.keys] at ih
    simp only [indexedFrom, Entries.keys, List.map_cons, ih, List.length_cons, List.range'_succ]

theorem nodup_keys_indexedFrom (position : Nat) (items : List Value) :
    (Entries.keys (indexedFrom position items)).Nodup := by
  rw [keys_indexedFrom]
  exact List.Pairwise.map _ (fun _ _ hNe h => hNe (Position.text_inj.mp h)) List.nodup_range'

/-- The entries of a container in order, those of a sequence under their positions. -/
def entries : Value → List (String × Value)
  | mapping entries => entries
  | sequence items => indexed items
  | _ => []

theorem child?_eq_get?_entries (node : Value) (key : String) :
    node.child? key = Entries.get? key node.entries := by
  cases node with
  | sequence items =>
    rw [entries, indexed_eq_indexedFrom, get?_indexedFrom]
    simp [child?]
  | _ => rfl

theorem mem_of_mem_indexedFrom {key : String} {child : Value} {position : Nat}
    {items : List Value} (h : (key, child) ∈ indexedFrom position items) : child ∈ items := by
  induction items generalizing position with
  | nil => cases h
  | cons item rest ih =>
    rcases List.mem_cons.mp h with h | h
    · cases h
      exact List.mem_cons_self
    · exact List.mem_cons_of_mem _ (ih h)

theorem sizeOf_lt_of_mem_entries {value child : Value} {key : String}
    (h : (key, child) ∈ value.entries) : sizeOf child < sizeOf value := by
  cases value with
  | mapping entries =>
    change (key, child) ∈ entries at h
    have hEntry := List.sizeOf_lt_of_mem h
    simp only [Prod.mk.sizeOf_spec] at hEntry
    simp only [mapping.sizeOf_spec]
    omega
  | sequence items =>
    rw [entries, indexed_eq_indexedFrom] at h
    have hItem := List.sizeOf_lt_of_mem (mem_of_mem_indexedFrom h)
    simp only [sequence.sizeOf_spec]
    omega
  | _ => cases h

/-- Induction along the entries of containers, whatever kind of container holds them. -/
theorem induction_on_entries {motive : Value → Prop}
    (step : ∀ value, (∀ key child, (key, child) ∈ value.entries → motive child) → motive value)
    (value : Value) : motive value := by
  induction value using (measure (sizeOf : Value → Nat)).wf.induction with
  | h value ih => exact step value fun key child h => ih child (sizeOf_lt_of_mem_entries h)

theorem exists_mem_indexedFrom {item : Value} {items : List Value} (h : item ∈ items)
    (position : Nat) : ∃ key, (key, item) ∈ indexedFrom position items := by
  induction items generalizing position with
  | nil => cases h
  | cons first rest ih =>
    rcases List.mem_cons.mp h with rfl | hRest
    · exact ⟨_, List.mem_cons_self⟩
    · obtain ⟨key, hMem⟩ := ih hRest (position + 1)
      exact ⟨key, List.mem_cons_of_mem _ hMem⟩

theorem induction_on_containers {motive : Value → Prop}
    (sequence : ∀ items, (∀ item ∈ items, motive item) → motive (sequence items))
    (mapping : ∀ entries, (∀ key child, (key, child) ∈ entries → motive child) →
      motive (mapping entries))
    (leaf : ∀ value, value.isContainer = false → motive value) (value : Value) : motive value := by
  induction value using induction_on_entries with
  | step value ih =>
    cases value with
    | sequence items =>
      apply sequence
      intro item hItem
      obtain ⟨key, hMem⟩ := exists_mem_indexedFrom hItem 0
      rw [← indexed_eq_indexedFrom] at hMem
      exact ih key item hMem
    | mapping entries => exact mapping entries ih
    | _ => exact leaf _ rfl

theorem ItemsWellFormed.of_mem {items : List Value} (h : ItemsWellFormed items) {item : Value}
    (hItem : item ∈ items) : item.WellFormed := by
  induction items with
  | nil => cases hItem
  | cons first rest ih =>
    obtain ⟨hFirst, hRest⟩ := h
    rcases List.mem_cons.mp hItem with rfl | hItem
    · exact hFirst
    · exact ih hRest hItem

theorem EntriesWellFormed.of_mem {entries : List (String × Value)} (h : EntriesWellFormed entries)
    {key : String} {child : Value} (hChild : (key, child) ∈ entries) : child.WellFormed := by
  induction entries with
  | nil => cases hChild
  | cons first rest ih =>
    obtain ⟨hFirst, hRest⟩ := h
    rcases List.mem_cons.mp hChild with rfl | hChild
    · exact hFirst
    · exact ih hRest hChild

theorem WellFormed.of_mem_entries {value : Value} (h : value.WellFormed) {key : String}
    {child : Value} (hChild : (key, child) ∈ value.entries) : child.WellFormed := by
  cases value with
  | mapping entries => exact EntriesWellFormed.of_mem h.2 hChild
  | sequence items =>
    rw [entries, indexed_eq_indexedFrom] at hChild
    exact ItemsWellFormed.of_mem h (mem_of_mem_indexedFrom hChild)
  | _ => cases hChild

theorem WellFormed.nodup_keys {value : Value} (h : value.WellFormed) :
    (Entries.keys value.entries).Nodup := by
  cases value with
  | mapping entries => exact h.1
  | sequence items =>
    rw [entries, indexed_eq_indexedFrom]
    exact nodup_keys_indexedFrom 0 items
  | _ => exact List.nodup_nil

theorem WellFormed.child?_eq_some_iff {value : Value} (h : value.WellFormed) {key : String}
    {child : Value} : value.child? key = some child ↔ (key, child) ∈ value.entries := by
  rw [child?_eq_get?_entries]
  exact ⟨Entries.mem_of_get?, Entries.get?_of_mem h.nodup_keys⟩

mutual

/-- What is below all containers of a value is as `leaf` says, and each key of a mapping is as `key`
says. -/
def Throughout (leaf : Value → Prop) (key : String → Prop) : Value → Prop
  | sequence items => ItemsThroughout leaf key items
  | mapping entries => EntriesThroughout leaf key entries
  | value => leaf value

def ItemsThroughout (leaf : Value → Prop) (key : String → Prop) : List Value → Prop
  | [] => True
  | item :: rest => item.Throughout leaf key ∧ ItemsThroughout leaf key rest

def EntriesThroughout (leaf : Value → Prop) (key : String → Prop) : List (String × Value) → Prop
  | [] => True
  | (name, value) :: rest =>
    key name ∧ value.Throughout leaf key ∧ EntriesThroughout leaf key rest

end

section Throughout

variable {leaf : Value → Prop} {key : String → Prop}

theorem Throughout.of_not_isContainer {value : Value} (h : value.Throughout leaf key)
    (hLeaf : value.isContainer = false) : leaf value := by
  cases value with
  | sequence items => cases hLeaf
  | mapping entries => cases hLeaf
  | _ => exact h

theorem ItemsThroughout.of_mem {items : List Value} (h : ItemsThroughout leaf key items)
    {item : Value} (hItem : item ∈ items) : item.Throughout leaf key := by
  induction items with
  | nil => cases hItem
  | cons first rest ih =>
    obtain ⟨hFirst, hRest⟩ := h
    rcases List.mem_cons.mp hItem with rfl | hItem
    · exact hFirst
    · exact ih hRest hItem

theorem EntriesThroughout.of_mem {entries : List (String × Value)}
    (h : EntriesThroughout leaf key entries) {name : String} {child : Value}
    (hChild : (name, child) ∈ entries) : key name ∧ child.Throughout leaf key := by
  induction entries with
  | nil => cases hChild
  | cons first rest ih =>
    obtain ⟨hName, hFirst, hRest⟩ := h
    rcases List.mem_cons.mp hChild with rfl | hChild
    · exact ⟨hName, hFirst⟩
    · exact ih hRest hChild

theorem Throughout.of_mem_entries {value : Value} (h : value.Throughout leaf key) {name : String}
    {child : Value} (hChild : (name, child) ∈ value.entries) : child.Throughout leaf key := by
  cases value with
  | mapping entries => exact (EntriesThroughout.of_mem h hChild).2
  | sequence items =>
    rw [entries, indexed_eq_indexedFrom] at hChild
    exact ItemsThroughout.of_mem h (mem_of_mem_indexedFrom hChild)
  | _ => cases hChild

end Throughout

end Wiring.Value
