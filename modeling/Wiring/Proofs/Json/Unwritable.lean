import Wiring.Json.Printer
import Wiring.Proofs.Value.Entries
import Wiring.Proofs.Value.Position

/-! # Values without a JSON text

A value has no JSON text exactly if writing it comes to a float that is not finite or to bytes that
are no text, and the first of these is the reason. Thunks are not called, so nothing behind them
counts; objects are written as what they stand for, also those with a text of their own.
-/
namespace Wiring

namespace Value
set_option autoImplicit false

/-- Induction along what is written for a value: items, the values of entries, and forms. -/
theorem induction_on_written {motive : Value → Prop}
    (sequence : ∀ items, (∀ item ∈ items, motive item) → motive (sequence items))
    (mapping : ∀ entries, (∀ key child, (key, child) ∈ entries → motive child) →
      motive (mapping entries))
    (object : ∀ identity properties text form, motive form →
      motive (object identity properties text form))
    (leaf : ∀ value, value.isAggregate = false → motive value) (value : Value) : motive value := by
  induction value using (measure (sizeOf : Value → Nat)).wf.induction with
  | h value ih =>
    cases value with
    | sequence items =>
      refine sequence items fun item hItem => ih item ?_
      have hSize := List.sizeOf_lt_of_mem hItem
      show sizeOf item < sizeOf (Value.sequence items)
      rw [Value.sequence.sizeOf_spec]
      omega
    | mapping entries =>
      exact mapping entries fun key child hMem => ih child (sizeOf_lt_of_mem_entries hMem)
    | object identity properties text form =>
      refine object identity properties text form (ih form ?_)
      show sizeOf form < sizeOf (Value.object identity properties text form)
      rw [Value.object.sizeOf_spec]
      omega
    | _ => exact leaf _ rfl

end Value

namespace Json
set_option autoImplicit false

mutual

/-- What writing a value comes to in the end, in the order of the text. -/
def leaves : Value → List Value
  | .sequence items => itemLeaves items
  | .mapping entries => entryLeaves entries
  | .object _ _ _ form => leaves form
  | value => [value]

def itemLeaves : List Value → List Value
  | [] => []
  | item :: rest => leaves item ++ itemLeaves rest

def entryLeaves : List (String × Value) → List Value
  | [] => []
  | (_, value) :: rest => leaves value ++ entryLeaves rest

end

/-- Writing the value comes to this part of it: through the items of sequences, the values of
mappings and what objects stand for, but not through thunks. -/
inductive Reaches : (value part : Value) → Prop
  | self (value : Value) : Reaches value value
  | item {items : List Value} {item part : Value} : item ∈ items → Reaches item part →
    Reaches (.sequence items) part
  | entry {entries : List (String × Value)} {key : String} {value part : Value} :
    (key, value) ∈ entries → Reaches value part → Reaches (.mapping entries) part
  | form {form part : Value} (identity : Nat) (properties : List (String × Value))
    (text : Option String) : Reaches form part →
    Reaches (.object identity properties text form) part

/-- The values that cannot be written whatever holds them, each with the reason. -/
inductive Defect : Value → Unwritable → Prop
  | float {x : Binary64} : x.isFinite = false → Defect (.float x) .nonFiniteFloat
  | bytes {data : ByteArray} : ¬ data.IsValidUTF8 → Defect (.bytes data) .malformedBytes

def HasDefect (value : Value) : Prop := ∃ part reason, Reaches value part ∧ Defect part reason

/-- The first leaf with a defect has it for this reason. -/
def IsFirstDefect (value : Value) (reason : Unwritable) : Prop :=
  ∃ front leaf back, leaves value = front ++ leaf :: back ∧ Defect leaf reason ∧
    ∀ other ∈ front, ∀ reason, ¬ Defect other reason

def defect? : Value → Option Unwritable
  | .float x => if x.isFinite then none else some .nonFiniteFloat
  | .bytes data => if data.IsValidUTF8 then none else some .malformedBytes
  | _ => none

theorem defect?_eq_some_iff {value : Value} {reason : Unwritable} :
    defect? value = some reason ↔ Defect value reason := by
  constructor
  · intro h
    cases value with
    | float x =>
      rw [defect?] at h
      split at h
      · cases h
      · rename_i hInfinite
        cases h
        exact .float (Bool.eq_false_iff.mpr hInfinite)
    | bytes data =>
      rw [defect?] at h
      split at h
      · cases h
      · rename_i hMalformed
        cases h
        exact .bytes hMalformed
    | _ => cases h
  · rintro (hInfinite | hMalformed)
    · rw [defect?, hInfinite, if_neg Bool.false_ne_true]
    · rw [defect?, if_neg hMalformed]

theorem defect?_eq_none_iff {value : Value} :
    defect? value = none ↔ ∀ reason, ¬ Defect value reason := by
  simp only [Option.eq_none_iff_forall_ne_some, ne_eq, defect?_eq_some_iff]

theorem isFirstDefect_iff {value : Value} {reason : Unwritable} :
    IsFirstDefect value reason ↔ (leaves value).findSome? defect? = some reason := by
  simp only [IsFirstDefect, List.findSome?_eq_some_iff, defect?_eq_some_iff, defect?_eq_none_iff]

theorem leaves_of_not_isAggregate {value : Value} (h : value.isAggregate = false) :
    leaves value = [value] := by
  cases value with
  | sequence items => cases h
  | mapping entries => cases h
  | object identity properties text form => cases h
  | _ => rfl

def reason? {α : Type} : Except Unwritable α → Option Unwritable
  | .ok _ => none
  | .error reason => some reason

theorem reason?_eq_some_iff {α : Type} {result : Except Unwritable α} {reason : Unwritable} :
    reason? result = some reason ↔ result = .error reason := by
  cases result <;> simp [reason?]

theorem reason?_map {α β : Type} (f : α → β) (result : Except Unwritable α) :
    reason? (result.map f) = reason? result := by
  cases result <;> rfl

theorem written_sequence (items : List Value) :
    written (.sequence items) =
      (writtenItems items).map fun parts => '[' :: joined parts ++ [']'] := by
  rw [written]
  cases writtenItems items <;> rfl

theorem written_mapping (entries : List (String × Value)) :
    written (.mapping entries) =
      (writtenEntries entries).map fun parts => '{' :: joined parts ++ ['}'] := by
  rw [written]
  cases writtenEntries entries <;> rfl

theorem reason?_written_of_not_isAggregate {value : Value} (h : value.isAggregate = false) :
    reason? (written value) = defect? value := by
  cases value with
  | sequence items => cases h
  | mapping entries => cases h
  | object identity properties text form => cases h
  | float x =>
    rw [written, defect?]
    split <;> rfl
  | bytes data =>
    rw [written, defect?, String.fromUTF8?]
    by_cases hText : data.IsValidUTF8
    · rw [dif_pos hText, if_pos hText]
      rfl
    · rw [dif_neg hText, if_neg hText]
      rfl
  | _ => rfl

theorem reason?_writtenItems {items : List Value}
    (h : ∀ item ∈ items, reason? (written item) = (leaves item).findSome? defect?) :
    reason? (writtenItems items) = (itemLeaves items).findSome? defect? := by
  induction items with
  | nil => rfl
  | cons item rest ih =>
    obtain ⟨hItem, hRest⟩ := List.forall_mem_cons.mp h
    rw [itemLeaves, List.findSome?_append, ← hItem, ← ih hRest, writtenItems]
    cases written item with
    | error reason => rfl
    | ok text => cases writtenItems rest <;> rfl

theorem reason?_writtenEntries {entries : List (String × Value)}
    (h : ∀ key child, (key, child) ∈ entries →
      reason? (written child) = (leaves child).findSome? defect?) :
    reason? (writtenEntries entries) = (entryLeaves entries).findSome? defect? := by
  induction entries with
  | nil => rfl
  | cons entry rest ih =>
    obtain ⟨key, child⟩ := entry
    have hRest := ih fun name other hMem => h name other (List.mem_cons_of_mem _ hMem)
    rw [entryLeaves, List.findSome?_append, ← h key child List.mem_cons_self, ← hRest,
      writtenEntries]
    cases written child with
    | error reason => rfl
    | ok text => cases writtenEntries rest <;> rfl

theorem reason?_written (value : Value) :
    reason? (written value) = (leaves value).findSome? defect? := by
  induction value using Value.induction_on_written with
  | sequence items ih =>
    rw [leaves, ← reason?_writtenItems ih, written_sequence, reason?_map]
  | mapping entries ih =>
    rw [leaves, ← reason?_writtenEntries ih, written_mapping, reason?_map]
  | object identity properties text form ih =>
    rw [leaves, ← ih, written]
  | leaf value hLeaf =>
    rw [reason?_written_of_not_isAggregate hLeaf, leaves_of_not_isAggregate hLeaf,
      List.findSome?_singleton]

theorem itemLeaves_eq_flatMap (items : List Value) : itemLeaves items = items.flatMap leaves := by
  induction items with
  | nil => rfl
  | cons item rest ih => rw [itemLeaves, ih, List.flatMap_cons]

theorem entryLeaves_eq_flatMap (entries : List (String × Value)) :
    entryLeaves entries = entries.flatMap fun entry => leaves entry.2 := by
  induction entries with
  | nil => rfl
  | cons entry rest ih => rw [entryLeaves, ih, List.flatMap_cons]

theorem reaches_of_mem_leaves {value leaf : Value} (h : leaf ∈ leaves value) :
    Reaches value leaf := by
  induction value using Value.induction_on_written with
  | sequence items ih =>
    rw [leaves, itemLeaves_eq_flatMap] at h
    obtain ⟨item, hItem, hLeaf⟩ := List.mem_flatMap.mp h
    exact .item hItem (ih item hItem hLeaf)
  | mapping entries ih =>
    rw [leaves, entryLeaves_eq_flatMap] at h
    obtain ⟨⟨key, child⟩, hEntry, hLeaf⟩ := List.mem_flatMap.mp h
    exact .entry hEntry (ih key child hEntry hLeaf)
  | object identity properties text form ih => exact .form identity properties text (ih h)
  | leaf value hLeaf =>
    rw [leaves_of_not_isAggregate hLeaf] at h
    rw [List.mem_singleton.mp h]
    exact .self value

theorem Reaches.leaves_subset {value part : Value} (h : Reaches value part) :
    leaves part ⊆ leaves value := by
  induction h with
  | self => exact List.Subset.refl _
  | item hItem _ ih =>
    rw [leaves, itemLeaves_eq_flatMap]
    exact fun leaf hLeaf => List.mem_flatMap.mpr ⟨_, hItem, ih hLeaf⟩
  | entry hEntry _ ih =>
    rw [leaves, entryLeaves_eq_flatMap]
    exact fun leaf hLeaf => List.mem_flatMap.mpr ⟨_, hEntry, ih hLeaf⟩
  | form _ _ _ _ ih => exact ih

theorem Defect.mem_leaves {value part : Value} {reason : Unwritable} (h : Defect part reason)
    (hPart : Reaches value part) : part ∈ leaves value := by
  apply hPart.leaves_subset
  cases h <;> exact List.mem_singleton_self _

theorem written_eq_error_iff {value : Value} {reason : Unwritable} :
    written value = .error reason ↔ IsFirstDefect value reason := by
  rw [isFirstDefect_iff, ← reason?_written, reason?_eq_some_iff]

theorem print_eq_error_iff {value : Value} {reason : Unwritable} :
    print value = .error reason ↔ IsFirstDefect value reason := by
  rw [← written_eq_error_iff, ← reason?_eq_some_iff, ← reason?_eq_some_iff, print, reason?_map]

theorem exists_isFirstDefect_iff {value : Value} :
    (∃ reason, IsFirstDefect value reason) ↔ HasDefect value := by
  constructor
  · rintro ⟨reason, front, leaf, back, hLeaves, hDefect, _⟩
    refine ⟨leaf, reason, reaches_of_mem_leaves ?_, hDefect⟩
    rw [hLeaves]
    exact List.mem_append_right front List.mem_cons_self
  · rintro ⟨part, reason, hPart, hDefect⟩
    have hFound : ((leaves value).findSome? defect?).isSome = true :=
      List.findSome?_isSome_iff.mpr
        ⟨part, hDefect.mem_leaves hPart, by rw [defect?_eq_some_iff.mpr hDefect]; rfl⟩
    obtain ⟨first, hFirst⟩ := Option.isSome_iff_exists.mp hFound
    exact ⟨first, isFirstDefect_iff.mpr hFirst⟩

theorem exists_print_eq_error_iff {value : Value} :
    (∃ reason, print value = .error reason) ↔ HasDefect value := by
  simp only [print_eq_error_iff, exists_isFirstDefect_iff]

end Json
end Wiring
