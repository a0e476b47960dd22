import Wiring.Path.Keys
import Wiring.Proofs.Value.Position

/-! # Keys joined by dots

A key that can stand bare is not empty and holds neither dots nor brackets. Such keys joined by dots
are path text that has just these keys, so that no two lists of them are joined alike.
-/
namespace Wiring.Path
set_option autoImplicit false

/-- A key that path text can hold without brackets. -/
structure IsBareKey (key : String) : Prop where
  nonempty : key ≠ ""
  chars : ∀ c ∈ key.toList, c ≠ '.' ∧ c ≠ '[' ∧ c ≠ ']'

theorem IsBareKey.isBare {key : String} (h : IsBareKey key) {c : Char} (hMem : c ∈ key.toList) :
    isBare c = true := by
  obtain ⟨hDot, hOpening, hClosing⟩ := h.chars c hMem
  exact (isBare_iff c).mpr ⟨hOpening, hClosing, hDot⟩

theorem isBareKey_iff (key : String) :
    IsBareKey key ↔ key ≠ "" ∧ key.toList.all isBare = true := by
  constructor
  · intro h
    exact ⟨h.nonempty, List.all_eq_true.mpr fun c hMem => h.isBare hMem⟩
  · rintro ⟨hSome, hBare⟩
    refine ⟨hSome, fun c hMem => ?_⟩
    obtain ⟨hOpening, hClosing, hDot⟩ := (isBare_iff c).mp (List.all_eq_true.mp hBare c hMem)
    exact ⟨hDot, hOpening, hClosing⟩

instance (key : String) : Decidable (IsBareKey key) :=
  decidable_of_iff _ (isBareKey_iff key).symm

def dotted (keys : List String) : String := ".".intercalate keys

theorem isBareKey_text (position : Nat) : IsBareKey (Position.text position) where
  nonempty h := Position.text_ne_nil position (String.toList_eq_nil_iff.mpr h)
  chars c hMem := by
    have hDigit := Position.isDigit_of_mem_text hMem
    refine ⟨?_, ?_, ?_⟩ <;> rintro rfl <;> cases hDigit

theorem items_bare_append (rest : List Char) {body : List Char} (hSome : body ≠ [])
    (hBare : ∀ c ∈ body, isBare c = true) (hRest : ∀ c ∈ rest.head?, isBare c = false) :
    items (body ++ rest) = (afterItem rest).map (String.ofList body :: ·) := by
  obtain ⟨c, more, rfl⟩ := List.exists_cons_of_ne_nil hSome
  obtain ⟨hHere, hMore⟩ := List.forall_mem_cons.mp hBare
  have hBracket : c ≠ '[' := ((isBare_iff c).mp hHere).1
  have hTake : rest.takeWhile isBare = [] := by
    cases rest with
    | nil => rfl
    | cons d _ => exact List.takeWhile_cons_of_neg (Bool.eq_false_iff.mp (hRest d rfl))
  have hDrop : rest.dropWhile isBare = rest := by
    cases rest with
    | nil => rfl
    | cons d _ => exact List.dropWhile_cons_of_neg (Bool.eq_false_iff.mp (hRest d rfl))
  rw [List.cons_append, items, if_neg hBracket, if_pos hHere, List.takeWhile_append_of_pos hMore,
    List.dropWhile_append_of_pos hMore, hTake, hDrop, List.append_nil]

theorem items_of_bare {key : String} (h : IsBareKey key) : items key.toList = .ok [key] := by
  have hItems := items_bare_append [] (mt String.toList_eq_nil_iff.mp h.nonempty)
    (fun _ => h.isBare) nofun
  rw [List.append_nil, afterItem, String.ofList_toList] at hItems
  exact hItems

theorem items_dot_append {key : String} (h : IsBareKey key) {rest : List Char} (hRest : rest ≠ []) :
    items (key.toList ++ '.' :: rest) = (items rest).map (key :: ·) := by
  have hItems := items_bare_append ('.' :: rest) (mt String.toList_eq_nil_iff.mp h.nonempty)
    (fun _ => h.isBare) (by rintro c ⟨⟩; rfl)
  rw [hItems, afterItem, if_pos rfl, if_neg (by simpa using hRest), String.ofList_toList]

theorem dotted_cons_cons (first second : String) (rest : List String) :
    (dotted (first :: second :: rest)).toList =
      first.toList ++ '.' :: (dotted (second :: rest)).toList := by
  rw [dotted, String.intercalate_cons_cons, String.toList_append, String.toList_append,
    List.append_assoc]
  rfl

theorem dotted_append_cons (first second : String) (rest : List String) :
    dotted ((first ++ "." ++ second) :: rest) = dotted (first :: second :: rest) := by
  rw [dotted, dotted, String.intercalate_cons_append, String.intercalate_cons_cons]

theorem dotted_ne_nil {key : String} (h : IsBareKey key) (rest : List String) :
    (dotted (key :: rest)).toList ≠ [] := by
  have hKey : key.toList ≠ [] := mt String.toList_eq_nil_iff.mp h.nonempty
  cases rest with
  | nil => rwa [dotted, String.intercalate_singleton]
  | cons second rest =>
    rw [dotted_cons_cons]
    exact List.append_ne_nil_of_left_ne_nil hKey _

theorem tokenize_dotted {keys : List String} (hSome : keys ≠ [])
    (h : ∀ key ∈ keys, IsBareKey key) : tokenize (dotted keys) = .ok keys := by
  suffices hItems : items (dotted keys).toList = .ok keys by
    rw [tokenize, hItems]
    rfl
  induction keys with
  | nil => exact absurd rfl hSome
  | cons first rest ih =>
    obtain ⟨hFirst, hRest⟩ := List.forall_mem_cons.mp h
    cases rest with
    | nil =>
      rw [dotted, String.intercalate_singleton]
      exact items_of_bare hFirst
    | cons second rest =>
      have hSome := dotted_ne_nil (hRest second List.mem_cons_self) rest
      rw [dotted_cons_cons, items_dot_append hFirst hSome,
        ih (List.cons_ne_nil _ _) hRest]
      rfl

theorem dotted_inj {keys other : List String} (hSome : keys ≠ []) (hOther : other ≠ [])
    (h : ∀ key ∈ keys, IsBareKey key) (hOtherKeys : ∀ key ∈ other, IsBareKey key) :
    dotted keys = dotted other ↔ keys = other := by
  constructor
  · intro hText
    have hKeys := tokenize_dotted hSome h
    rw [hText, tokenize_dotted hOther hOtherKeys] at hKeys
    exact (Except.ok.inj hKeys).symm
  · rintro rfl
    rfl

end Wiring.Path
