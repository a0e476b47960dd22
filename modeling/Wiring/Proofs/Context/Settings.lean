import Wiring.Proofs.Context.Leaves
import Wiring.Proofs.Path.Dotted
import Wiring.Proofs.Path.Reach

/-! # Settings of a container

A container of settings is stored flat: what stands at its leaves, under the keys that lead there
joined by dots. Where the keys can stand bare, a setting is read under dotted keys exactly as the
container is read at that path, as far as a leaf is found there (`config?_setConfigAll_iff`).
-/
namespace Wiring
set_option autoImplicit false

namespace Value

/-- What a value other than a container is stored as: null, false and zero as nothing, text as it
is and anything else as it is shown. -/
inductive StoredAs : Value → String → Prop
  | text (text : String) : StoredAs (.string text) text
  | empty {value : Value} : value.isFalsy = true → StoredAs value ""
  | shown {value : Value} : value.isContainer = false → value.isString = false →
    value.isFalsy = false → StoredAs value value.display

/-- There are no objects among the containers, and each key of a mapping can stand bare. -/
def IsSettings (value : Value) : Prop :=
  value.Throughout (fun leaf => leaf.isAggregate = false) Path.IsBareKey

theorem isBareKey_of_mem_indexedFrom {key : String} {child : Value} {position : Nat}
    {items : List Value} (h : (key, child) ∈ indexedFrom position items) : Path.IsBareKey key := by
  have hKey := Entries.mem_keys_of_mem h
  rw [keys_indexedFrom] at hKey
  obtain ⟨index, _, rfl⟩ := List.mem_map.mp hKey
  exact Path.isBareKey_text index

theorem IsSettings.of_child? {value child : Value} (h : value.IsSettings) {key : String}
    (hChild : value.child? key = some child) : Path.IsBareKey key ∧ child.IsSettings := by
  rw [child?_eq_get?_entries] at hChild
  have hMem := Entries.mem_of_get? hChild
  refine ⟨?_, Throughout.of_mem_entries h hMem⟩
  cases value with
  | mapping entries => exact (EntriesThroughout.of_mem h hMem).1
  | sequence items =>
    rw [entries, indexed_eq_indexedFrom] at hMem
    exact isBareKey_of_mem_indexedFrom hMem
  | _ => cases hMem

theorem IsSettings.step? {value : Value} (h : value.IsSettings) (key : String) :
    value.step? key = value.child? key := by
  cases value with
  | object => cases h
  | _ => exact Option.or_none

theorem IsSettings.at? {value : Value} (h : value.IsSettings) (keys : List String) :
    value.at? keys = value.reach? keys := by
  induction keys generalizing value with
  | nil => rfl
  | cons key rest ih =>
    rw [Value.at?, reach?, h.step? key]
    cases hChild : value.child? key with
    | none => rfl
    | some child => exact ih (h.of_child? hChild).2

theorem IsSettings.isBareKey_of_reach? {value : Value} (h : value.IsSettings) {keys : List String}
    {found : Value} (hFound : value.reach? keys = some found) :
    ∀ key ∈ keys, Path.IsBareKey key := by
  induction keys generalizing value with
  | nil => nofun
  | cons key rest ih =>
    obtain ⟨child, hChild, hRest⟩ := reach?_cons_eq_some_iff.mp hFound
    obtain ⟨hKey, hSettings⟩ := h.of_child? hChild
    exact List.forall_mem_cons.mpr ⟨hKey, ih hSettings hRest⟩

theorem get?_dotted (value : Value) {keys : List String} (hSome : keys ≠ [])
    (h : ∀ key ∈ keys, Path.IsBareKey key) :
    value.get? (.text (Path.dotted keys)) = .ok (value.at? keys) :=
  get?_of_keys? (by rw [Path.keys?, Path.tokenize_dotted hSome h]; rfl) value

theorem storedAs_unique {value : Value} {text other : String} (h : StoredAs value text)
    (hOther : StoredAs value other) : text = other := by
  rcases h with _ | hFalsy | ⟨hLeaf, hString, hFalsy⟩
  · rcases hOther with _ | ⟨⟨⟩⟩ | ⟨_, ⟨⟩, _⟩
    rfl
  · rcases hOther with _ | _ | ⟨_, _, hTruthy⟩
    · cases hFalsy
    · rfl
    · cases hFalsy.symm.trans hTruthy
  · rcases hOther with _ | hEmpty | _
    · cases hString
    · cases hFalsy.symm.trans hEmpty
    · rfl

end Value

namespace Context
open Value

theorem itemLeaves_eq (lead : String) (position : Nat) (items : List Value) :
    itemLeaves lead position items = entryLeaves lead (indexedFrom position items) := by
  induction items generalizing position with
  | nil => rfl
  | cons item rest ih => rw [itemLeaves, indexedFrom, entryLeaves, ih]

theorem leaves_of_isContainer {value : Value} (h : value.isContainer = true) (key : String) :
    leaves key value = entryLeaves (key ++ ".") value.entries := by
  cases value with
  | mapping entries => rfl
  | sequence items => rw [leaves, itemLeaves_eq, entries, indexed_eq_indexedFrom]
  | _ => cases h

theorem leaves_of_not_isContainer {value : Value} (h : value.isContainer = false) (key : String) :
    ∃ text, leaves key value = [(key, text)] ∧ StoredAs value text := by
  by_cases hString : ∃ text, value = .string text
  · obtain ⟨text, rfl⟩ := hString
    exact ⟨text, rfl, .text text⟩
  · have hLeaves : leaves key value = [(key, if value.isFalsy then "" else value.display)] := by
      cases value with
      | string text => exact absurd ⟨text, rfl⟩ hString
      | sequence items => cases h
      | mapping entries => cases h
      | _ => rfl
    refine ⟨_, hLeaves, ?_⟩
    cases hFalsy : value.isFalsy with
    | true => exact .empty hFalsy
    | false =>
      refine .shown h ?_ hFalsy
      cases value with
      | string text => exact absurd ⟨text, rfl⟩ hString
      | _ => rfl

theorem mem_entryLeaves_iff {leaf : String × String} {lead : String}
    {entries : List (String × Value)} :
    leaf ∈ entryLeaves lead entries ↔
      ∃ key child, (key, child) ∈ entries ∧ leaf ∈ leaves (lead ++ key) child := by
  induction entries with
  | nil => exact ⟨nofun, nofun⟩
  | cons entry rest ih =>
    obtain ⟨key, child⟩ := entry
    rw [entryLeaves, List.mem_append, ih]
    constructor
    · rintro (hHere | ⟨other, found, hMem, hLeaf⟩)
      · exact ⟨key, child, List.mem_cons_self, hHere⟩
      · exact ⟨other, found, List.mem_cons_of_mem _ hMem, hLeaf⟩
    · rintro ⟨other, found, hMem, hLeaf⟩
      rcases List.mem_cons.mp hMem with hHere | hMem
      · cases hHere
        exact .inl hLeaf
      · exact .inr ⟨other, found, hMem, hLeaf⟩

theorem mem_leaves_iff {value : Value} (hValue : value.WellFormed) {lead key text : String} :
    (key, text) ∈ leaves lead value ↔
      ∃ keys found, value.reach? keys = some found ∧ found.isContainer = false ∧
        StoredAs found text ∧ key = Path.dotted (lead :: keys) := by
  induction value using induction_on_entries generalizing lead with
  | step value ih =>
    cases hContainer : value.isContainer with
    | true =>
      have hChild (name : String) (child : Value) (hMem : (name, child) ∈ value.entries) :
          (key, text) ∈ leaves (lead ++ "." ++ name) child ↔
            ∃ keys found, child.reach? keys = some found ∧ found.isContainer = false ∧
              StoredAs found text ∧ key = Path.dotted (lead :: name :: keys) := by
        simp only [ih name child hMem (hValue.of_mem_entries hMem), Path.dotted_append_cons]
      rw [leaves_of_isContainer hContainer, mem_entryLeaves_iff]
      constructor
      · rintro ⟨name, child, hMem, hLeaf⟩
        obtain ⟨keys, found, hFound, hRest⟩ := (hChild name child hMem).mp hLeaf
        refine ⟨name :: keys, found, ?_, hRest⟩
        exact reach?_cons_eq_some_iff.mpr ⟨child, hValue.child?_eq_some_iff.mpr hMem, hFound⟩
      · rintro ⟨keys, found, hFound, hLeaf, hStored⟩
        cases keys with
        | nil =>
          cases hFound
          cases hContainer.symm.trans hLeaf
        | cons name keys =>
          obtain ⟨child, hName, hFound⟩ := reach?_cons_eq_some_iff.mp hFound
          have hMem := hValue.child?_eq_some_iff.mp hName
          exact ⟨name, child, hMem, (hChild name child hMem).mpr ⟨keys, found, hFound, hLeaf, hStored⟩⟩
    | false =>
      obtain ⟨stored, hLeaves, hStored⟩ := leaves_of_not_isContainer hContainer lead
      rw [hLeaves, List.mem_singleton, Prod.mk.injEq]
      constructor
      · rintro ⟨rfl, rfl⟩
        exact ⟨[], value, rfl, hContainer, hStored, String.intercalate_singleton.symm⟩
      · rintro ⟨keys, found, hFound, _, hText, rfl⟩
        cases keys with
        | nil =>
          cases hFound
          exact ⟨String.intercalate_singleton, storedAs_unique hText hStored⟩
        | cons name keys =>
          rw [reach?_cons_of_not_isContainer hContainer] at hFound
          cases hFound

/-- Where no key is written with two texts, a table that was empty holds just what was written. -/
theorem config?_write_iff {pairs : List (String × String)} {key : String}
    (h : ∀ text other, (key, text) ∈ pairs → (key, other) ∈ pairs → text = other) (text : String) :
    (({} : Context).write pairs).config? key = some text ↔ (key, text) ∈ pairs := by
  have hRead : (({} : Context).write pairs).config? key = Entries.get? key pairs.reverse :=
    (Table.get?_foldl_set pairs {} key).trans Option.or_none
  rw [hRead]
  constructor
  · intro hText
    exact List.mem_reverse.mp (Entries.mem_of_get? hText)
  · intro hMem
    have hKey := Entries.mem_keys_of_mem (List.mem_reverse.mpr hMem)
    cases hFound : Entries.get? key pairs.reverse with
    | none => exact absurd hKey ((Entries.get?_eq_none_iff _ _).mp hFound)
    | some other =>
      rw [h text other hMem (List.mem_reverse.mp (Entries.mem_of_get? hFound))]

theorem setConfigAll_of_isContainer {value : Value} (h : value.isContainer = true)
    (context : Context) :
    context.setConfigAll value = .ok (context.write (entryLeaves "" value.entries)) := by
  cases value with
  | mapping entries => rw [setConfigAll, storeEntries_eq_write, Value.entries]
  | sequence items =>
    rw [setConfigAll, storeItems_eq_write, itemLeaves_eq, entries, indexed_eq_indexedFrom]
  | _ => cases h

theorem mem_entryLeaves_entries_iff {value : Value} (hValue : value.WellFormed)
    (hSettings : value.IsSettings) {keys : List String} (hSome : keys ≠ [])
    (hKeys : ∀ key ∈ keys, Path.IsBareKey key) {text : String} :
    (Path.dotted keys, text) ∈ entryLeaves "" value.entries ↔
      ∃ found, value.reach? keys = some found ∧ found.isContainer = false ∧
        StoredAs found text := by
  rw [mem_entryLeaves_iff]
  constructor
  · rintro ⟨key, child, hMem, hLeaf⟩
    have hChild := hValue.child?_eq_some_iff.mpr hMem
    rw [String.empty_append, mem_leaves_iff (hValue.of_mem_entries hMem)] at hLeaf
    obtain ⟨rest, found, hFound, hLeaf, hStored, hText⟩ := hLeaf
    have hReach : value.reach? (key :: rest) = some found :=
      reach?_cons_eq_some_iff.mpr ⟨child, hChild, hFound⟩
    have hSame : keys = key :: rest := (Path.dotted_inj hSome (List.cons_ne_nil key rest) hKeys
      (hSettings.isBareKey_of_reach? hReach)).mp hText
    exact ⟨found, hSame ▸ hReach, hLeaf, hStored⟩
  · rintro ⟨found, hFound, hLeaf, hStored⟩
    obtain ⟨key, rest, rfl⟩ := List.exists_cons_of_ne_nil hSome
    obtain ⟨child, hChild, hFound⟩ := reach?_cons_eq_some_iff.mp hFound
    have hMem := hValue.child?_eq_some_iff.mp hChild
    refine ⟨key, child, hMem, ?_⟩
    rw [String.empty_append, mem_leaves_iff (hValue.of_mem_entries hMem)]
    exact ⟨rest, found, hFound, hLeaf, hStored, rfl⟩

/-- A container of settings is stored so that a setting under dotted keys has a text exactly if
these keys, as a path, lead to a value that is no container, and then the text that this value is
stored as. Keys that lead to a container or to nothing read as unset. -/
theorem config?_setConfigAll_iff {value : Value} (hContainer : value.isContainer = true)
    (hValue : value.WellFormed) (hSettings : value.IsSettings) :
    ∃ context, ({} : Context).setConfigAll value = .ok context ∧
      ∀ keys, keys ≠ [] → (∀ key ∈ keys, Path.IsBareKey key) →
        (∀ text, context.config? (Path.dotted keys) = some text ↔
          ∃ found, value.get? (.text (Path.dotted keys)) = .ok (some found) ∧
            found.isContainer = false ∧ StoredAs found text) ∧
        (context.config? (Path.dotted keys) = none ↔
          value.get? (.text (Path.dotted keys)) = .ok none ∨
            ∃ found, value.get? (.text (Path.dotted keys)) = .ok (some found) ∧
              found.isContainer = true) := by
  refine ⟨_, setConfigAll_of_isContainer hContainer {}, fun keys hSome hKeys => ?_⟩
  have hMem (text : String) : (Path.dotted keys, text) ∈ entryLeaves "" value.entries ↔
      ∃ found, value.reach? keys = some found ∧ found.isContainer = false ∧ StoredAs found text :=
    mem_entryLeaves_entries_iff hValue hSettings hSome hKeys
  have hText (text : String) :
      (({} : Context).write (entryLeaves "" value.entries)).config? (Path.dotted keys) = some text ↔
        ∃ found, value.reach? keys = some found ∧ found.isContainer = false ∧
          StoredAs found text := by
    rw [config?_write_iff, hMem]
    intro text other hHere hThere
    obtain ⟨found, hFound, _, hStored⟩ := (hMem text).mp hHere
    obtain ⟨again, hAgain, _, hOther⟩ := (hMem other).mp hThere
    cases hFound.symm.trans hAgain
    exact storedAs_unique hStored hOther
  rw [get?_dotted value hSome hKeys, hSettings.at? keys]
  simp only [Except.ok.injEq]
  refine ⟨hText, ?_⟩
  rw [Option.eq_none_iff_forall_ne_some]
  constructor
  · intro hUnset
    cases hFound : value.reach? keys with
    | none => exact .inl rfl
    | some found =>
      refine .inr ⟨found, rfl, ?_⟩
      rw [← Bool.not_eq_false]
      intro hLeaf
      obtain ⟨text, _, hStored⟩ := leaves_of_not_isContainer hLeaf ""
      exact hUnset text ((hText text).mpr ⟨found, hFound, hLeaf, hStored⟩)
  · rintro hNone text hSet
    obtain ⟨found, hFound, hLeaf, _⟩ := (hText text).mp hSet
    rcases hNone with hNone | ⟨other, hOther, hHolds⟩
    · cases hNone.symm.trans hFound
    · cases hOther.symm.trans hFound
      cases hLeaf.symm.trans hHolds

def nestedSettings : Value :=
  .mapping [("servers", .sequence [.mapping [("name", .string "eka")], .null]), ("none", .mapping [])]

/-- Keys lead through the sequence by position. The null reads as empty text, the empty container as
unset. -/
theorem config?_setConfigAll_iff_nested :
    ∃ context, ({} : Context).setConfigAll nestedSettings = .ok context ∧
      context.config? "servers.0.name" = some "eka" ∧ context.config? "servers.1" = some "" ∧
      context.config? "none" = none := by
  have hValue : nestedSettings.WellFormed := by
    simp [nestedSettings, WellFormed, EntriesWellFormed, ItemsWellFormed, Entries.keys]
  have hSettings : nestedSettings.IsSettings := by
    have hKeys : Path.IsBareKey "servers" ∧ Path.IsBareKey "name" ∧ Path.IsBareKey "none" := by
      decide
    simp [nestedSettings, IsSettings, Throughout, EntriesThroughout, ItemsThroughout, isAggregate,
      isContainer, hKeys]
  obtain ⟨context, hStored, hRead⟩ := config?_setConfigAll_iff rfl hValue hSettings
  refine ⟨context, hStored, ?_, ?_, ?_⟩
  · have hName : ∀ key ∈ ["servers", "0", "name"], Path.IsBareKey key := by decide
    have hFound := (get?_dotted nestedSettings (by decide) hName).trans (congrArg _ rfl)
    exact ((hRead _ (by decide) hName).1 "eka").mpr ⟨.string "eka", hFound, rfl, .text _⟩
  · have hNull : ∀ key ∈ ["servers", "1"], Path.IsBareKey key := by decide
    have hFound := (get?_dotted nestedSettings (by decide) hNull).trans (congrArg _ rfl)
    exact ((hRead _ (by decide) hNull).1 "").mpr ⟨.null, hFound, rfl, .empty rfl⟩
  · have hEmpty : ∀ key ∈ ["none"], Path.IsBareKey key := by decide
    have hFound := (get?_dotted nestedSettings (by decide) hEmpty).trans (congrArg _ rfl)
    exact (hRead _ (by decide) hEmpty).2.mpr (.inr ⟨.mapping [], hFound, rfl⟩)

end Context
end Wiring
