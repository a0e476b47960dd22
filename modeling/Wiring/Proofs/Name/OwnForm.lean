import Wiring.Proofs.Name.Accepted

/-! # Names that are their own form

A canonical form is its own canonical form under the same suffix, if that reads the same wherever it
stands: at the start of a word as well as within one (`canonicalize_canonicalize`). A short form is
its own short form.
-/
namespace Wiring.Name
set_option autoImplicit false

/-- Empty, or a word that is not written otherwise when it is capitalized. -/
structure IsUpright (suffix : String) : Prop where
  chars : ∀ c ∈ suffix.toList, isWordChar c = true
  first : ∀ c, suffix.toList.head? = some c → c.isDigit = true ∨ isUpper c = true

theorem isLower_of_isDigit {c : Char} (h : c.isDigit = true) : isLower c = false := by
  cases hLower : isLower c with
  | false => rfl
  | true =>
    rw [isDigit_of_isLower hLower] at h
    cases h

theorem capital_of_isDigit_or_isUpper {c : Char} (h : c.isDigit = true ∨ isUpper c = true) :
    capital c = c := by
  apply capital_of_not_isLower
  rcases h with hDigit | hUpper
  · exact isLower_of_isDigit hDigit
  · exact isLower_of_isUpper hUpper

theorem joins_of_isWordChar {text : List Char} (h : ∀ c ∈ text, isWordChar c = true) :
    Joins false text text := by
  induction text with
  | nil => exact .nil
  | cons c rest ih =>
    obtain ⟨hHere, hRest⟩ := List.forall_mem_cons.mp h
    exact .word hHere (ih hRest)

theorem IsUpright.joins {suffix : String} (h : IsUpright suffix) (fresh : Bool) :
    Joins fresh suffix.toList suffix.toList := by
  obtain ⟨hChars, hFirst⟩ := h
  cases hText : suffix.toList with
  | nil => exact .nil
  | cons c rest =>
    rw [hText] at hChars hFirst
    obtain ⟨hHere, hRest⟩ := List.forall_mem_cons.mp hChars
    have hHead : (if fresh then capital c else c) = c := by
      rw [capital_of_isDigit_or_isUpper (hFirst c rfl)]
      exact ite_self c
    have hWhole : Joins fresh (c :: rest) ((if fresh then capital c else c) :: rest) :=
      .word hHere (joins_of_isWordChar hRest)
    rwa [hHead] at hWhole

theorem canonicalize_canonicalize {name suffix long : String} (hSuffix : IsUpright suffix)
    (h : canonicalize name suffix = .ok long) : canonicalize long suffix = .ok long := by
  have hSelf : Joins true long.toList long.toList := joins_self_of_canonicalize hSuffix.joins h
  have hNamespace : HasNamespace long := hasNamespace_of_canonicalize h
  exact canonicalize_of_joins_self hSelf hNamespace (suffix_of_canonicalize h)

/-- The suffix comes right after a separator, where a word is capitalized. -/
theorem canonicalize_canonicalize_segment :
    IsUpright "2Komento" ∧ canonicalize "oma:luo-tili:" "2Komento" = .ok "Oma\\LuoTili\\2Komento" ∧
      canonicalize "Oma\\LuoTili\\2Komento" "2Komento" = .ok "Oma\\LuoTili\\2Komento" := by
  have hSuffix : IsUpright "2Komento" := by
    constructor
    · have hAll : "2Komento".toList.all isWordChar = true := by decide
      exact List.all_eq_true.mp hAll
    · intro c hFirst
      cases hFirst
      exact .inl rfl
  have hLong : canonicalize "oma:luo-tili:" "2Komento" = .ok "Oma\\LuoTili\\2Komento" := by rfl
  exact ⟨hSuffix, hLong, canonicalize_canonicalize hSuffix hLong⟩

theorem splitWords_cons_of_isLower {c : Char} {rest : List Char} (inWord : Bool)
    (h : isLower c = true) :
    splitWords inWord (c :: rest) = (splitWords true rest).map (c :: ·) := by
  have hTail : isTail c = true := by rw [isTail, h, Bool.true_or]
  have hWord : isWordChar c = true := isWordChar_of_isTail hTail
  simp only [splitWords, isNamespaceMark_of_isWordChar hWord, isJoiner_of_isWordChar hWord,
    isUpper_of_isTail hTail, h, Bool.true_or, if_true, Bool.false_eq_true, if_false]

/-- A short form has nothing left to rewrite, and its words begin where words began before. -/
theorem splitWords_self {inWord : Bool} {text short : List Char}
    (h : splitWords inWord text = some short) : splitWords inWord short = some short := by
  fun_induction splitWords inWord text generalizing short with
  | case1 =>
    cases h
    rfl
  | case2 inWord c rest hMark ih =>
    obtain ⟨tail, hTail, rfl⟩ := Option.map_eq_some_iff.mp h
    show (splitWords false tail).map (':' :: ·) = _
    rw [ih hTail, Option.map_some]
  | case3 inWord c rest hMark hJoiner ih =>
    obtain ⟨tail, hTail, rfl⟩ := Option.map_eq_some_iff.mp h
    show (splitWords false tail).map ('-' :: ·) = _
    rw [ih hTail, Option.map_some]
  | case4 inWord c rest hMark hJoiner hUpper ih =>
    obtain ⟨tail, hTail, rfl⟩ := Option.map_eq_some_iff.mp h
    have hSmall (inWord : Bool) : splitWords inWord (small c :: tail) = some (small c :: tail) := by
      rw [splitWords_cons_of_isLower inWord (isLower_small hUpper), ih hTail, Option.map_some]
    cases inWord with
    | false => exact hSmall false
    | true =>
      show (splitWords false (small c :: tail)).map ('-' :: ·) = _
      rw [hSmall false, Option.map_some, if_pos rfl]
  | case5 inWord c rest hMark hJoiner hUpper hTailChar ih =>
    obtain ⟨tail, hTail, rfl⟩ := Option.map_eq_some_iff.mp h
    rw [splitWords, if_neg hMark, if_neg hJoiner, if_neg hUpper, if_pos hTailChar, ih hTail,
      Option.map_some]
  | case6 => cases h

theorem shorten_self {name suffix short : String} (h : shorten name suffix = .ok short)
    (hSome : short ≠ "") : shorten short "" = .ok short := by
  have hLead : ¬ lead <+: short.toList := by
    intro hLead
    have hSeparator : separator ∈ lead := by decide
    exact not_hasNamespace_of_shorten h (hLead.subset hSeparator)
  have hText := (shorten_eq_ok_iff_splitWords.mp h).2
  rw [shorten_eq_ok_iff_splitWords, stem, String.toList_empty, withoutSuffix_nil,
    unqualified_of_not_isPrefix hLead]
  exact ⟨hSome, splitWords_self hText⟩

end Wiring.Name
