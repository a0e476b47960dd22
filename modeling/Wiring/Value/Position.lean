/-! # Positions

A position in a sequence is written in decimal without a sign or leading zeros.
-/
namespace Wiring.Position
set_option autoImplicit false

def text (position : Nat) : String := toString position

def number (digits : List Char) : Nat :=
  digits.foldl (fun n c => 10 * n + (c.toNat - '0'.toNat)) 0

def ofText? (key : String) : Option Nat :=
  let position := number key.toList
  if text position = key then some position else none

theorem text_of_ofText? {key : String} {position : Nat} (h : ofText? key = some position) :
    text position = key := by
  simp only [ofText?] at h
  split at h
  · simp only [Option.some.injEq] at h
    exact h ▸ ‹_›
  · simp at h

/-- No two keys write one position, so `01` and `+1` are not `1`. -/
theorem eq_of_ofText? {first second : String} {position : Nat}
    (hFirst : ofText? first = some position) (hSecond : ofText? second = some position) :
    first = second := by
  rw [← text_of_ofText? hFirst, text_of_ofText? hSecond]

theorem number_eq_ofDigitChars (digits : List Char) :
    number digits = Nat.ofDigitChars 10 digits 0 := rfl

theorem ofText?_text (position : Nat) : ofText? (text position) = some position := by
  have hNumber : number (text position).toList = position := by
    rw [number_eq_ofDigitChars, text, Nat.toString_eq_repr, Nat.toList_repr,
      Nat.ofDigitChars_ten_toDigits]
  simp only [ofText?, hNumber, if_true]

theorem text_inj {first second : Nat} : text first = text second ↔ first = second := by
  constructor
  · intro h
    have hFirst := ofText?_text first
    rw [h, ofText?_text second] at hFirst
    exact (Option.some.inj hFirst).symm
  · rintro rfl
    rfl

end Wiring.Position
