import Wiring.Value.Position

/-! # Numbers in decimal

The digits of a number other than zero have no leading zero, and digits without one are those of the
number that they stand for.
-/
namespace Wiring.Position
set_option autoImplicit false

theorem digitChar_of_isDigit {c : Char} (h : c.isDigit = true) :
    c.toNat - '0'.toNat < 10 ∧ (c.toNat - '0'.toNat).digitChar = c := by
  obtain ⟨hZero, hNine⟩ := Bool.and_eq_true_iff.mp h
  have hLow : 48 ≤ c.toNat := UInt32.le_iff_toNat_le.mp (of_decide_eq_true hZero)
  have hHigh : c.toNat ≤ 57 := UInt32.le_iff_toNat_le.mp (of_decide_eq_true hNine)
  have hSmall : c.toNat - '0'.toNat < 10 := by
    show c.toNat - 48 < 10
    omega
  refine ⟨hSmall, Char.toNat_inj.mp ?_⟩
  rw [Nat.toNat_digitChar_of_lt_ten hSmall]
  show 48 + (c.toNat - 48) = c.toNat
  omega

theorem toDigits_foldl {digits : List Char} (h : ∀ c ∈ digits, c.isDigit = true) {n : Nat}
    (hPos : 0 < n) :
    Nat.toDigits 10 (digits.foldl (fun n c => 10 * n + (c.toNat - '0'.toNat)) n) =
      Nat.toDigits 10 n ++ digits := by
  induction digits generalizing n with
  | nil => rw [List.foldl_nil, List.append_nil]
  | cons c rest ih =>
    obtain ⟨hHere, hRest⟩ := List.forall_mem_cons.mp h
    obtain ⟨hSmall, hChar⟩ := digitChar_of_isDigit hHere
    rw [List.foldl_cons, ih hRest (by omega),
      ← Nat.toDigits_append_toDigits (by decide) hPos hSmall, Nat.toDigits_of_lt_base hSmall,
      hChar, List.append_assoc]
    rfl

theorem text_number {digits : List Char} (h : ∀ c ∈ digits, c.isDigit = true)
    (hSome : digits ≠ []) (hFirst : digits.head? ≠ some '0') :
    (text (number digits)).toList = digits := by
  obtain ⟨first, rest, rfl⟩ := List.exists_cons_of_ne_nil hSome
  obtain ⟨hHere, hRest⟩ := List.forall_mem_cons.mp h
  obtain ⟨hSmall, hChar⟩ := digitChar_of_isDigit hHere
  have hPos : 0 < first.toNat - '0'.toNat := by
    apply Nat.pos_of_ne_zero
    intro hZero
    rw [hZero] at hChar
    exact hFirst (congrArg some hChar.symm)
  rw [text, Nat.toString_eq_repr, Nat.toList_repr, number, List.foldl_cons, Nat.mul_zero,
    Nat.zero_add, toDigits_foldl hRest hPos, Nat.toDigits_of_lt_base hSmall, hChar]
  rfl

theorem number_text (n : Nat) : number (text n).toList = n := by
  rw [number_eq_ofDigitChars, text, Nat.toString_eq_repr, Nat.toList_repr,
    Nat.ofDigitChars_ten_toDigits]

theorem isDigit_of_mem_text {n : Nat} {c : Char} (h : c ∈ (text n).toList) : c.isDigit = true := by
  rw [text, Nat.toString_eq_repr, Nat.toList_repr] at h
  exact Nat.isDigit_of_mem_toDigits (by decide) (by decide) h

theorem text_ne_nil (n : Nat) : (text n).toList ≠ [] := by
  rw [text, Nat.toString_eq_repr, Nat.toList_repr]
  exact Nat.toDigits_ne_nil

theorem head?_text_ne_zero {n : Nat} (h : 0 < n) : (text n).toList.head? ≠ some '0' := by
  rw [text, Nat.toString_eq_repr, Nat.toList_repr]
  induction n using Nat.strongRecOn with
  | ind n ih =>
    by_cases hSmall : n < 10
    · rw [Nat.toDigits_of_lt_base hSmall]
      intro hZero
      exact Nat.ne_of_gt h (Nat.digitChar_eq_zero.mp (Option.some.inj hZero))
    · have hShorter : n / 10 < n := Nat.div_lt_self h (by decide)
      have hFirst := ih (n / 10) hShorter (by omega)
      rw [Nat.toDigits_of_base_le (by decide) (Nat.le_of_not_lt hSmall)]
      obtain ⟨first, rest, hDigits⟩ := List.exists_cons_of_ne_nil
        (Nat.toDigits_ne_nil : Nat.toDigits 10 (n / 10) ≠ [])
      rw [hDigits] at hFirst ⊢
      exact hFirst

end Wiring.Position
