import Wiring.Proofs.Context.Settings

/-! # What storing a setting changes

A setting is stored leaf by leaf. The table of settings then holds for each key among the leaves the
text of its last leaf, and is otherwise what it was: keys that were there stay in place and new ones
follow in the order of their first leaf (`setConfig_written`).
-/
namespace Wiring.Context
set_option autoImplicit false
open Value

/-- The leaves that are met on a walk over a value, depth first, each with the key it is stored
under and the text it is stored as. -/
inductive Flattens : (key : String) → Value → List (String × String) → Prop
  | leaf {key text : String} {value : Value} : value.isContainer = false → StoredAs value text →
    Flattens key value [(key, text)]
  | container {key : String} {value : Value} {part : String × Value → List (String × String)} :
    value.isContainer = true →
    (∀ entry ∈ value.entries, Flattens (key ++ "." ++ entry.1) entry.2 (part entry)) →
    Flattens key value (value.entries.flatMap part)

structure WrittenInto (before : Table String) (pairs : List (String × String))
    (after : Table String) : Prop where
  each : after = pairs.foldl (fun table pair => table.set pair.1 pair.2) before
  unique : after.keys.Nodup
  last : ∀ earlier key text later, pairs = earlier ++ (key, text) :: later →
    key ∉ Entries.keys later → after.get? key = some text
  kept : ∀ key, key ∉ Entries.keys pairs → after.get? key = before.get? key
  order : after.keys =
    before.keys ++ ((Entries.keys pairs).filter (· ∉ before.keys)).eraseDups

theorem entryLeaves_eq_flatMap (lead : String) (entries : List (String × Value)) :
    entryLeaves lead entries = entries.flatMap fun entry => leaves (lead ++ entry.1) entry.2 := by
  induction entries with
  | nil => rfl
  | cons entry rest ih =>
    obtain ⟨key, child⟩ := entry
    rw [entryLeaves, ih, List.flatMap_cons]

theorem flattens_leaves (key : String) (value : Value) : Flattens key value (leaves key value) := by
  induction value using induction_on_entries generalizing key with
  | step value ih =>
    cases hContainer : value.isContainer with
    | true =>
      rw [leaves_of_isContainer hContainer, entryLeaves_eq_flatMap]
      apply Flattens.container hContainer
      rintro ⟨name, child⟩ hMem
      exact ih name child hMem (key ++ "." ++ name)
    | false =>
      obtain ⟨text, hLeaves, hStored⟩ := leaves_of_not_isContainer hContainer key
      rw [hLeaves]
      exact .leaf hContainer hStored

theorem flattens_iff {key : String} {value : Value} {pairs : List (String × String)} :
    Flattens key value pairs ↔ pairs = leaves key value := by
  constructor
  · intro h
    induction h with
    | @leaf key text value hLeaf hStored =>
      obtain ⟨other, hLeaves, hOther⟩ := leaves_of_not_isContainer hLeaf key
      rw [hLeaves, storedAs_unique hStored hOther]
    | @container key value part hContainer _ ih =>
      rw [leaves_of_isContainer hContainer, entryLeaves_eq_flatMap, List.flatMap_def,
        List.flatMap_def, List.map_congr_left ih]
  · rintro rfl
    exact flattens_leaves key value

/-- New keys come in the order in which they are first written. -/
theorem keys_foldl_set (pairs : List (String × String)) (table : Table String) :
    (pairs.foldl (fun table leaf => table.set leaf.1 leaf.2) table).keys =
      table.keys ++ ((Entries.keys pairs).filter (· ∉ table.keys)).eraseDups := by
  induction pairs generalizing table with
  | nil => exact (List.append_nil table.keys).symm
  | cons pair rest ih =>
    obtain ⟨key, text⟩ := pair
    have hKeys : (table.set key text).keys =
        if key ∈ table.keys then table.keys else table.keys ++ [key] :=
      Entries.keys_set key text table.entries
    have hPairs : Entries.keys ((key, text) :: rest) = key :: Entries.keys rest := rfl
    rw [List.foldl_cons, ih, hKeys, hPairs]
    by_cases hOld : key ∈ table.keys
    · rw [if_pos hOld, List.filter_cons_of_neg (by simpa using hOld)]
    · have hRest : (Entries.keys rest).filter (· ∉ table.keys ++ [key]) =
          ((Entries.keys rest).filter (· ∉ table.keys)).filter fun other => !other == key := by
        rw [List.filter_filter]
        apply List.filter_congr
        intro other _
        rw [Bool.eq_iff_iff]
        simp [and_comm]
      rw [if_neg hOld, List.filter_cons_of_pos (by simpa using hOld), List.eraseDups_cons, hRest,
        List.append_assoc, List.singleton_append]

theorem writtenInto_write (context : Context) (pairs : List (String × String)) :
    WrittenInto context.settings pairs (context.write pairs).settings where
  each := rfl
  unique := (context.write pairs).settings.nodup
  last := by
    rintro earlier key text later rfl hLast
    rw [write, Table.get?_foldl_set, Entries.get?_reverse_of_last hLast]
    rfl
  kept := by
    intro key hKey
    rw [write, Table.get?_foldl_set, Entries.get?_reverse_of_not_mem hKey]
    rfl
  order := keys_foldl_set pairs context.settings

/-- Storing a setting writes just the leaves of its value. -/
theorem setConfig_written (context : Context) (key : String) (value : Value) :
    ∃ pairs, (∀ other, Flattens key value other ↔ other = pairs) ∧
      WrittenInto context.settings pairs (context.setConfig key value).settings ∧
      (context.setConfig key value).registrations = context.registrations := by
  refine ⟨leaves key value, fun other => flattens_iff, ?_,
    registrations_setConfig context key value⟩
  rw [setConfig_eq_write]
  exact writtenInto_write context (leaves key value)

/-- A key that is reached twice stays where it was first reached. -/
example :
    (({ settings := .ofList [("k.c", "0")] } : Context).setConfig "k"
        (.mapping [("a.b", .string "1"), ("c", .null), ("d", .sequence []),
          ("a", .mapping [("e", .bool true), ("b", .integer 2)])])).settings.entries =
      [("k.c", ""), ("k.a.b", "2"), ("k.a.e", "true")] := by
  decide

end Wiring.Context
