import Wiring.Path.Basic
import Wiring.Proofs.Path.Grammar

/-! # Keys written out

Keys written in brackets one after the other are path text that has just these keys, and only such
keys are ever read. So path text is brought into a form of its own by writing its keys in brackets.
What paths are displayed as reads back too, if their keys can stand bare (`tokenize_written`).
-/
namespace Wiring.Path
set_option autoImplicit false

/-- A key that path text can hold. -/
structure IsBracketKey (key : String) : Prop where
  nonempty : key ≠ ""
  chars : ']' ∉ key.toList

def bracketed (keys : List String) : String := String.join (keys.map fun key => "[" ++ key ++ "]")

def bracketForm (text : String) : Except Malformed String := (tokenize text).map bracketed

section Brackets

variable {key text : String} {keys : List String}

theorem IsBareKey.isBracketKey (h : IsBareKey key) : IsBracketKey key where
  nonempty := h.nonempty
  chars hMem := (h.chars ']' hMem).2.2 rfl

theorem bracketed_cons (key : String) (keys : List String) :
    (bracketed (key :: keys)).toList = (Item.bracketed key).text ++ (bracketed keys).toList := by
  simp [bracketed, Item.text]

theorem linked_bracketed (h : ∀ key ∈ keys, IsBracketKey key) :
    Linked (keys.map .bracketed) (bracketed keys).toList := by
  induction keys with
  | nil => exact .nil
  | cons key keys ih =>
    obtain ⟨hKey, hKeys⟩ := List.forall_mem_cons.mp h
    rw [bracketed_cons, List.map_cons]
    exact .bracket hKey.chars (ih hKeys)

theorem spelled_bracketed (h : ∀ key ∈ keys, IsBracketKey key) :
    Spelled (keys.map .bracketed) (bracketed keys).toList := by
  cases keys with
  | nil => exact .nil
  | cons key keys =>
    obtain ⟨hKey, hKeys⟩ := List.forall_mem_cons.mp h
    rw [bracketed_cons, List.map_cons]
    exact .first hKey.chars (linked_bracketed hKeys)

theorem filterMap_key?_bracketed (h : ∀ key ∈ keys, IsBracketKey key) :
    (keys.map Item.bracketed).filterMap Item.key? = keys := by
  induction keys with
  | nil => rfl
  | cons key keys ih =>
    obtain ⟨hKey, hKeys⟩ := List.forall_mem_cons.mp h
    rw [List.map_cons, filterMap_key?_cons, ih hKeys, Item.key?, if_neg hKey.nonempty]
    rfl

theorem tokenize_bracketed (h : ∀ key ∈ keys, IsBracketKey key) :
    tokenize (bracketed keys) = .ok keys :=
  tokenize_eq_ok_iff.mpr ⟨_, spelled_bracketed h, (filterMap_key?_bracketed h).symm⟩

theorem Item.isBracketKey_of_key? {item : Item} (h : item.IsSound) (hKey : item.key? = some key) :
    IsBracketKey key := by
  cases item with
  | bare own =>
    cases hKey
    exact IsBareKey.isBracketKey h
  | bracketed body =>
    rw [Item.key?] at hKey
    split at hKey
    · cases hKey
    · rename_i hBody
      cases hKey
      exact ⟨hBody, h⟩

theorem isBracketKey_of_tokenize (h : tokenize text = .ok keys) : ∀ key ∈ keys, IsBracketKey key := by
  obtain ⟨chain, hChain, rfl⟩ := tokenize_eq_ok_iff.mp h
  intro key hMem
  obtain ⟨item, hItem, hKey⟩ := List.mem_filterMap.mp hMem
  exact Item.isBracketKey_of_key? (hChain.of_mem hItem).1 hKey

theorem bracketForm_bind_tokenize (text : String) :
    (bracketForm text).bind tokenize = tokenize text := by
  rw [bracketForm]
  cases hKeys : tokenize text with
  | error malformed => rfl
  | ok keys => exact tokenize_bracketed (isBracketKey_of_tokenize hKeys)

end Brackets

section Bare

variable {text : String} {keys : List String}

theorem isBareKey_of_tokenize (hText : ']' ∉ text.toList) (h : tokenize text = .ok keys) :
    ∀ key ∈ keys, IsBareKey key := by
  obtain ⟨chain, hChain, rfl⟩ := tokenize_eq_ok_iff.mp h
  intro key hMem
  obtain ⟨item, hItem, hKey⟩ := List.mem_filterMap.mp hMem
  obtain ⟨hSound, hSubset⟩ := hChain.of_mem hItem
  cases item with
  | bare own =>
    cases hKey
    exact hSound
  | bracketed body =>
    have hClosing : ']' ∈ (Item.bracketed body).text :=
      List.mem_cons_of_mem _ (List.mem_append_right _ (List.mem_singleton_self _))
    exact absurd (hSubset hClosing) hText

theorem closing_not_mem_dotted (h : ∀ key ∈ keys, IsBracketKey key) :
    ']' ∉ (dotted keys).toList := by
  induction keys with
  | nil => exact List.not_mem_nil
  | cons first rest ih =>
    obtain ⟨hFirst, hRest⟩ := List.forall_mem_cons.mp h
    cases rest with
    | nil =>
      rw [dotted, String.intercalate_singleton]
      exact hFirst.chars
    | cons second rest =>
      rw [dotted_cons_cons]
      intro hMem
      rcases List.mem_append.mp hMem with hHere | hThere
      · exact hFirst.chars hHere
      · exact ih hRest ((List.mem_cons.mp hThere).resolve_left (by decide))

theorem tokenize_dotted_iff :
    tokenize (dotted keys) = .ok keys ↔ ∀ key ∈ keys, IsBareKey key := by
  constructor
  · intro h
    exact isBareKey_of_tokenize (closing_not_mem_dotted (isBracketKey_of_tokenize h)) h
  · intro h
    cases keys with
    | nil => exact tokenize_eq_ok_iff.mpr ⟨[], .nil, rfl⟩
    | cons first rest => exact tokenize_dotted (List.cons_ne_nil first rest) h

end Bare

theorem display_index (position : Nat) :
    (Path.index position).display = bracketed [Position.text position] := by
  rw [Path.display, ← String.toList_inj, bracketed_cons]
  simp [bracketed, Item.text]

/-- Just the keys that are not empty and hold no closing bracket are read from brackets, and no
others are read from any text. Its bracket form has the keys of a text, and is its own. What keys
are displayed as reads back just if they can stand bare, and what a position is displayed as always
does. -/
theorem tokenize_written (keys : List String) (position : Nat) (text : String) :
    (tokenize (bracketed keys) = .ok keys ↔ ∀ key ∈ keys, IsBracketKey key) ∧
    ((∃ other, tokenize other = .ok keys) ↔ ∀ key ∈ keys, IsBracketKey key) ∧
    (bracketForm text).bind tokenize = tokenize text ∧
    (bracketForm text).bind bracketForm = bracketForm text ∧
    (tokenize (Path.keys keys).display = .ok keys ↔ ∀ key ∈ keys, IsBareKey key) ∧
    (tokenize (Path.index position).display).map some = (Path.index position).keys? := by
  refine ⟨⟨isBracketKey_of_tokenize, tokenize_bracketed⟩, ⟨?_, ?_⟩, bracketForm_bind_tokenize text,
    ?_, tokenize_dotted_iff, ?_⟩
  · rintro ⟨other, hOther⟩
    exact isBracketKey_of_tokenize hOther
  · intro h
    exact ⟨bracketed keys, tokenize_bracketed h⟩
  · have hMapped : (bracketForm text).bind bracketForm =
        ((bracketForm text).bind tokenize).map bracketed := by
      cases bracketForm text <;> rfl
    rw [hMapped, bracketForm_bind_tokenize, bracketForm]
  · have hKey : ∀ key ∈ [Position.text position], IsBracketKey key :=
      List.forall_mem_singleton.mpr (isBareKey_text position).isBracketKey
    rw [display_index, tokenize_bracketed hKey]
    rfl

end Wiring.Path
