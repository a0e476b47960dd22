import Wiring.Proofs.Json.RoundTrip
import Wiring.Proofs.Json.Unwritable

/-! # What is shown as invalid

At most sixteen thunks in a row are called. A value that is shown as JSON is shown as `invalid`
exactly if it has no JSON text: no JSON text reads so, since each begins with a digit, a minus sign,
a quote or a bracket, or is one of the three words.
-/
namespace Wiring

namespace Json
set_option autoImplicit false

open Binary64 (plainText scientificText Layout)

def BeginsWithDigit (text : List Char) : Prop := ∃ c rest, text = c :: rest ∧ c.isDigit = true

theorem BeginsWithDigit.append {text : List Char} (h : BeginsWithDigit text) (rest : List Char) :
    BeginsWithDigit (text ++ rest) := by
  obtain ⟨c, more, rfl, hDigit⟩ := h
  exact ⟨c, more ++ rest, rfl, hDigit⟩

theorem beginsWithDigit_of_forall {text : List Char} (hSome : text ≠ [])
    (h : ∀ c ∈ text, c.isDigit = true) : BeginsWithDigit text := by
  obtain ⟨c, rest, rfl⟩ := List.exists_cons_of_ne_nil hSome
  exact ⟨c, rest, rfl, h c List.mem_cons_self⟩

theorem beginsWithDigit_text (n : Nat) : BeginsWithDigit (Position.text n).toList :=
  beginsWithDigit_of_forall (Position.text_ne_nil n) fun _ => Position.isDigit_of_mem_text

theorem beginsWithDigit_plainText (n : Nat) (exponent : Int) :
    BeginsWithDigit (plainText (Position.text n).toList exponent) := by
  rw [plainText]
  split
  · exact ((beginsWithDigit_text n).append _).append _
  · generalize (-exponent).toNat = places
    refine (beginsWithDigit_of_forall ?_ fun c hMem => ?_).append _
    · rw [ne_eq, List.take_eq_nil_iff, ← List.length_eq_zero_iff, List.length_append,
        List.length_replicate]
      omega
    · rcases List.mem_append.mp (List.mem_of_mem_take hMem) with hZero | hDigit
      · rw [List.eq_of_mem_replicate hZero]
        rfl
      · exact Position.isDigit_of_mem_text hDigit

theorem beginsWithDigit_scientificText (plus : String) (n : Nat) (first : Int) :
    BeginsWithDigit (scientificText plus (Position.text n).toList first) := by
  obtain ⟨c, rest, hText, hDigit⟩ := beginsWithDigit_text n
  rw [hText]
  cases rest <;> exact ⟨c, _, rfl, hDigit⟩

theorem beginsWithDigit_magnitude (layout : Layout) (x : Binary64) :
    BeginsWithDigit (layout.magnitude x) := by
  rw [Layout.magnitude]
  split
  · exact ⟨'0', _, rfl, rfl⟩
  · dsimp only
    split
    · exact beginsWithDigit_plainText _ _
    · exact beginsWithDigit_scientificText _ _ _

theorem head_float {x : Binary64} (h : x.isFinite = true) :
    ∃ c rest, (Layout.json.text x).toList = c :: rest ∧ BeginsInteger c := by
  have hNumber : x.isNaN = false := by
    rw [Binary64.isFinite, bne_iff_ne] at h
    rw [Binary64.isNaN, beq_false_of_ne h, Bool.false_and]
  obtain ⟨c, rest, hText, hDigit⟩ := beginsWithDigit_magnitude Layout.json x
  rw [Layout.text, if_neg (Bool.eq_false_iff.mp hNumber), if_pos h, hText, String.toList_ofList]
  split
  · exact ⟨'-', _, rfl, .inl rfl⟩
  · exact ⟨c, rest, rfl, .inr hDigit⟩

def BeginsText (c : Char) : Prop := BeginsInteger c ∨ c ∈ ['n', 't', 'f', '"', '[', '{']

theorem exists_of_map_eq_ok {α β : Type} {f : α → β} {result : Except Unwritable α} {b : β}
    (h : result.map f = .ok b) : ∃ a, result = .ok a ∧ f a = b := by
  cases result with
  | error reason => cases h
  | ok a =>
    cases h
    exact ⟨a, rfl, rfl⟩

theorem head_written_leaf {value : Value} (hLeaf : value.isAggregate = false) {chars : List Char}
    (h : written value = .ok chars) : ∃ c rest, chars = c :: rest ∧ BeginsText c := by
  cases value with
  | null =>
    cases h
    exact ⟨'n', _, rfl, .inr (by decide)⟩
  | bool b =>
    cases h
    cases b with
    | true => exact ⟨'t', _, rfl, .inr (by decide)⟩
    | false => exact ⟨'f', _, rfl, .inr (by decide)⟩
  | integer n =>
    cases h
    obtain ⟨c, rest, hText, hHead⟩ := head_integer n.toInt
    exact ⟨c, rest, hText, .inl hHead⟩
  | float x =>
    rw [written] at h
    split at h
    · rename_i hFinite
      cases h
      obtain ⟨c, rest, hText, hHead⟩ := head_float hFinite
      exact ⟨c, rest, hText, .inl hHead⟩
    · cases h
  | string text =>
    cases h
    exact ⟨'"', _, rfl, .inr (by decide)⟩
  | bytes data =>
    rw [written] at h
    split at h
    · cases h
      exact ⟨'"', _, rfl, .inr (by decide)⟩
    · cases h
  | thunk identity result =>
    cases h
    exact ⟨'{', _, rfl, .inr (by decide)⟩
  | sequence items => cases hLeaf
  | mapping entries => cases hLeaf
  | object identity properties text form => cases hLeaf

theorem head_written {value : Value} {chars : List Char} (h : written value = .ok chars) :
    ∃ c rest, chars = c :: rest ∧ BeginsText c := by
  induction value using Value.induction_on_written with
  | sequence items _ =>
    rw [written_sequence] at h
    obtain ⟨parts, _, rfl⟩ := exists_of_map_eq_ok h
    exact ⟨'[', _, rfl, .inr (by decide)⟩
  | mapping entries _ =>
    rw [written_mapping] at h
    obtain ⟨parts, _, rfl⟩ := exists_of_map_eq_ok h
    exact ⟨'{', _, rfl, .inr (by decide)⟩
  | object identity properties text form ih => exact ih h
  | leaf value hLeaf => exact head_written_leaf hLeaf h

theorem print_ne_invalid {value : Value} {text : String} (h : print value = .ok text) :
    text ≠ Value.invalidText := by
  obtain ⟨chars, hChars, rfl⟩ := exists_of_map_eq_ok h
  obtain ⟨c, rest, rfl, hHead⟩ := head_written hChars
  intro hInvalid
  have hFirst : c = 'i' := List.head_eq_of_cons_eq (String.ofList_injective hInvalid)
  rw [hFirst] at hHead
  rcases hHead with hNumber | hOther
  · exact hNumber.ne (by decide) rfl rfl
  · revert hOther
    decide

end Json

namespace Value
set_option autoImplicit false

/-- As many thunks in a row, and the value behind them. -/
def behindThunks (identities : List Nat) (value : Value) : Value := identities.foldr thunk value

inductive ShownAsJson : Value → Prop
  | float (x : Binary64) : ShownAsJson (float x)
  | sequence (items : List Value) : ShownAsJson (sequence items)
  | mapping (entries : List (String × Value)) : ShownAsJson (mapping entries)
  | object (identity : Nat) (properties : List (String × Value)) (form : Value) :
    ShownAsJson (object identity properties none form)

theorem displayWithin_behindThunks (identities : List Nat) (value : Value) (calls : Nat) :
    displayWithin (identities.length + calls) (behindThunks identities value) =
      displayWithin calls value := by
  induction identities with
  | nil => rw [List.length_nil, Nat.zero_add, behindThunks, List.foldr_nil]
  | cons identity identities ih =>
    rw [List.length_cons, Nat.add_right_comm, behindThunks, List.foldr_cons, displayWithin]
    exact ih

theorem displayWithin_of_lt {identities : List Nat} {calls : Nat} (h : calls < identities.length)
    (value : Value) : displayWithin calls (behindThunks identities value) = invalidText := by
  induction identities generalizing calls with
  | nil => exact absurd h (Nat.not_lt_zero calls)
  | cons identity identities ih =>
    cases calls with
    | zero => rfl
    | succ calls => exact ih (Nat.lt_of_succ_lt_succ h)

theorem displayWithin_of_not_thunk {value : Value}
    (h : ∀ identity result, value ≠ thunk identity result) (calls other : Nat) :
    displayWithin calls value = displayWithin other value := by
  cases value with
  | thunk identity result => exact absurd rfl (h identity result)
  | bool b => cases b <;> simp only [displayWithin]
  | object identity properties text form => cases text <;> simp only [displayWithin]
  | _ => simp only [displayWithin]

theorem display_behindThunks {identities : List Nat} {value : Value}
    (hValue : ∀ identity result, value ≠ thunk identity result)
    (hLength : identities.length ≤ maxThunkChain) :
    (behindThunks identities value).display = value.display := by
  obtain ⟨calls, hCalls⟩ := Nat.exists_eq_add_of_le hLength
  rw [display, hCalls, displayWithin_behindThunks]
  exact displayWithin_of_not_thunk hValue _ _

theorem ShownAsJson.display {value : Value} (h : ShownAsJson value) :
    value.display = jsonText value := by
  cases h <;> rfl

theorem ShownAsJson.display_of_print {value : Value} (h : ShownAsJson value) {text : String}
    (hPrint : Json.print value = .ok text) : value.display = text := by
  rw [h.display, jsonText, hPrint]

theorem ShownAsJson.display_eq_invalidText_iff {value : Value} (h : ShownAsJson value) :
    value.display = invalidText ↔ Json.HasDefect value := by
  rw [← Json.exists_print_eq_error_iff, h.display, jsonText]
  cases hPrint : Json.print value with
  | error reason => exact iff_of_true rfl ⟨reason, rfl⟩
  | ok text => exact iff_of_false (Json.print_ne_invalid hPrint) (by rintro ⟨_, h⟩; cases h)

/-- Up to sixteen thunks in a row show what is behind them, more show `invalid`. A value has no JSON
text exactly if writing it comes to a defect, and then the first defect is the reason. If a value is
shown as JSON, it is `invalid` exactly then, and otherwise its JSON text, which is never that. -/
theorem display_degrades (value : Value) :
    (∀ identities : List Nat,
      ((∀ identity result, value ≠ thunk identity result) → identities.length ≤ 16 →
        (behindThunks identities value).display = value.display) ∧
      (16 < identities.length → (behindThunks identities value).display = "invalid")) ∧
    ((∃ reason, Json.print value = .error reason) ↔ Json.HasDefect value) ∧
    (∀ reason, Json.print value = .error reason ↔ Json.IsFirstDefect value reason) ∧
    (ShownAsJson value →
      (value.display = "invalid" ↔ Json.HasDefect value) ∧
      ∀ text, Json.print value = .ok text → value.display = text ∧ text ≠ "invalid") :=
  ⟨fun _ => ⟨display_behindThunks, fun hLength => displayWithin_of_lt hLength value⟩,
    Json.exists_print_eq_error_iff, fun _ => Json.print_eq_error_iff,
    fun h => ⟨h.display_eq_invalidText_iff,
      fun _ hPrint => ⟨h.display_of_print hPrint, Json.print_ne_invalid hPrint⟩⟩⟩

/-- A thunk around a defect is none, and an object is written as its form even if it has a text. -/
theorem display_degrades_malformed_form :
    let value := sequence [thunk 0 (float .canonicalNaN),
      object 1 [] (some "text") (bytes ⟨#[0xff]⟩), float .canonicalNaN]
    (behindThunks (List.range 16) value).display = value.display ∧
      (behindThunks (List.range 17) value).display = "invalid" ∧
      Json.print value = .error .malformedBytes ∧ value.display = "invalid" := by
  intro value
  obtain ⟨hThunks, hFails, hReason, hJson⟩ := display_degrades value
  have hFirst : Json.IsFirstDefect value .malformedBytes := by
    refine ⟨[thunk 0 (float .canonicalNaN)], bytes ⟨#[0xff]⟩, [float .canonicalNaN], rfl,
      .bytes (by decide), fun other hMem reason hDefect => ?_⟩
    rw [List.mem_singleton.mp hMem] at hDefect
    cases hDefect
  have hPrint := (hReason .malformedBytes).mpr hFirst
  exact ⟨(hThunks _).1 (fun _ _ => nofun) (by decide), (hThunks _).2 (by decide), hPrint,
    (hJson (.sequence _)).1.mpr (hFails.mp ⟨_, hPrint⟩)⟩

end Value
end Wiring
