import Wiring.Proofs.Name.RoundTrip

/-! # Names that have a form

A name has a canonical form if it is made of word characters, namespace marks and joiners. It has a
short form as well unless one of its words begins with a digit (`exists_shorten_eq_ok_iff`). A
canonical form is its own canonical form, and has a short form if the name that it is of has one.
-/
namespace Wiring.Name
set_option autoImplicit false

/-- A text and what becomes of it when its words are joined. -/
inductive Joins : (fresh : Bool) → (text joined : List Char) → Prop
  | nil {fresh : Bool} : Joins fresh [] []
  | word {fresh : Bool} {c : Char} {rest joined : List Char} : isWordChar c = true →
    Joins false rest joined → Joins fresh (c :: rest) ((if fresh then capital c else c) :: joined)
  | mark {fresh : Bool} {c : Char} {rest joined : List Char} : isNamespaceMark c = true →
    Joins true rest joined → Joins fresh (c :: rest) (separator :: joined)
  | joiner {fresh : Bool} {c : Char} {rest joined : List Char} : isJoiner c = true →
    Joins true rest joined → Joins fresh (c :: rest) joined

theorem isWordChar_of_isNamespaceMark {c : Char} (h : isNamespaceMark c = true) :
    isWordChar c = false := by
  rcases (isNamespaceMark_iff c).mp h with rfl | rfl <;> decide

theorem isWordChar_of_isJoiner {c : Char} (h : isJoiner c = true) : isWordChar c = false := by
  rcases (isJoiner_iff c).mp h with rfl | rfl <;> decide

theorem isNamespaceMark_of_isJoiner {c : Char} (h : isJoiner c = true) :
    isNamespaceMark c = false := by
  rcases (isJoiner_iff c).mp h with rfl | rfl <;> decide

theorem joinWords_eq_some_iff {fresh : Bool} {text joined : List Char} :
    joinWords fresh text = some joined ↔ Joins fresh text joined := by
  constructor
  · intro h
    induction text generalizing fresh joined with
    | nil =>
      cases h
      exact .nil
    | cons c rest ih =>
      rw [joinWords] at h
      split at h
      · rename_i hWord
        obtain ⟨tail, hTail, rfl⟩ := Option.map_eq_some_iff.mp h
        exact .word hWord (ih hTail)
      split at h
      · rename_i hMark
        obtain ⟨tail, hTail, rfl⟩ := Option.map_eq_some_iff.mp h
        exact .mark hMark (ih hTail)
      split at h
      · rename_i hJoiner
        exact .joiner hJoiner (ih h)
      · cases h
  · intro h
    induction h with
    | nil => rfl
    | word hWord _ ih =>
      rw [joinWords_cons_of_isWordChar hWord, ih]
      rfl
    | mark hMark _ ih =>
      simp only [joinWords, isWordChar_of_isNamespaceMark hMark, hMark, ih, Option.map_some,
        if_true, Bool.false_eq_true, if_false]
    | joiner hJoiner _ ih =>
      simp only [joinWords, isWordChar_of_isJoiner hJoiner, isNamespaceMark_of_isJoiner hJoiner,
        hJoiner, ih, if_true, Bool.false_eq_true, if_false]

def isNameChar (c : Char) : Bool := isWordChar c || isNamespaceMark c || isJoiner c

theorem Joins.isNameChar {fresh : Bool} {text joined : List Char} (h : Joins fresh text joined) :
    ∀ c ∈ text, isNameChar c = true := by
  induction h with
  | nil => exact nofun
  | word hWord _ ih => exact List.forall_mem_cons.mpr ⟨by simp [Name.isNameChar, hWord], ih⟩
  | mark hMark _ ih => exact List.forall_mem_cons.mpr ⟨by simp [Name.isNameChar, hMark], ih⟩
  | joiner hJoiner _ ih => exact List.forall_mem_cons.mpr ⟨by simp [Name.isNameChar, hJoiner], ih⟩

def endsInWord (inWord : Bool) (text : List Char) : Bool := text.getLast?.elim inWord isWordChar

/-- A digit with nothing of a word right before it. -/
def HasDigitWord (inWord : Bool) (text : List Char) : Prop :=
  ∃ before digit after, text = before ++ digit :: after ∧ digit.isDigit = true ∧
    endsInWord inWord before = false

theorem endsInWord_cons (inWord : Bool) (c : Char) (rest : List Char) :
    endsInWord inWord (c :: rest) = endsInWord (isWordChar c) rest := by
  cases rest with
  | nil => rfl
  | cons next rest =>
    rw [endsInWord, endsInWord, List.getLast?_cons_cons, List.getLast?_cons]
    rfl

section DigitWords

variable {inWord : Bool} {c : Char} {rest text : List Char}

theorem not_hasDigitWord_nil : ¬ HasDigitWord inWord [] := by
  rintro ⟨before, digit, after, hText, _⟩
  exact List.append_ne_nil_of_right_ne_nil before (List.cons_ne_nil digit after) hText.symm

theorem hasDigitWord_cons_iff :
    HasDigitWord inWord (c :: rest) ↔
      (inWord = false ∧ c.isDigit = true) ∨ HasDigitWord (isWordChar c) rest := by
  constructor
  · rintro ⟨before, digit, after, hText, hDigit, hBefore⟩
    cases before with
    | nil =>
      cases hText
      exact .inl ⟨hBefore, hDigit⟩
    | cons first more =>
      cases hText
      rw [endsInWord_cons] at hBefore
      exact .inr ⟨more, digit, after, rfl, hDigit, hBefore⟩
  · rintro (⟨hFresh, hDigit⟩ | ⟨before, digit, after, rfl, hDigit, hBefore⟩)
    · exact ⟨[], c, rest, rfl, hDigit, hFresh⟩
    · exact ⟨c :: before, digit, after, rfl, hDigit, by rwa [endsInWord_cons]⟩

theorem isDigit_of_isNamespaceMark {c : Char} (h : isNamespaceMark c = true) :
    c.isDigit = false := by
  rcases (isNamespaceMark_iff c).mp h with rfl | rfl <;> decide

theorem isDigit_of_isJoiner {c : Char} (h : isJoiner c = true) : c.isDigit = false := by
  rcases (isJoiner_iff c).mp h with rfl | rfl <;> decide

theorem isDigit_of_isLower {c : Char} (h : isLower c = true) : c.isDigit = false := by
  have hAll : (smallLetters.all fun c => c.isDigit == false) = true := by decide
  exact eq_of_beq (of_smallLetters hAll h)

theorem isDigit_of_isUpper {c : Char} (h : isUpper c = true) : c.isDigit = false := by
  have hAll : (capitalLetters.all fun c => c.isDigit == false) = true := by decide
  exact eq_of_beq (of_capitalLetters hAll h)

theorem splitWords_cons_eq_none_iff (h : isNameChar c = true) :
    splitWords inWord (c :: rest) = none ↔
      (inWord = false ∧ c.isDigit = true) ∨ splitWords (isWordChar c) rest = none := by
  rw [isNameChar, Bool.or_eq_true, Bool.or_eq_true, isWordChar_iff] at h
  rcases h with ((hLower | hUpper | hDigit) | hMark) | hJoiner
  · have hWord : isWordChar c = true := (isWordChar_iff c).mpr (.inl hLower)
    have hTail : isTail c = true := by rw [isTail, hLower, Bool.true_or]
    simp [splitWords, isNamespaceMark_of_isWordChar hWord, isJoiner_of_isWordChar hWord,
      isUpper_of_isTail hTail, hLower, hWord, isDigit_of_isLower hLower]
  · have hWord := isWordChar_of_isUpper hUpper
    rw [splitWords_cons_of_isUpper hUpper, Option.map_eq_none_iff, hWord]
    simp [isDigit_of_isUpper hUpper]
  · have hTail : isTail c = true := by rw [isTail, hDigit, Bool.or_true]
    have hWord := isWordChar_of_isTail hTail
    have hLower : isLower c = false := by
      cases hLower : isLower c with
      | false => rfl
      | true => rw [isDigit_of_isLower hLower] at hDigit; cases hDigit
    cases inWord <;> simp [splitWords, isNamespaceMark_of_isWordChar hWord,
      isJoiner_of_isWordChar hWord, isUpper_of_isTail hTail, hLower, hWord, hDigit]
  · simp [splitWords, hMark, isWordChar_of_isNamespaceMark hMark, isDigit_of_isNamespaceMark hMark]
  · simp [splitWords, hJoiner, isNamespaceMark_of_isJoiner hJoiner, isWordChar_of_isJoiner hJoiner,
      isDigit_of_isJoiner hJoiner]

/-- The scanner for short names stops at a word that begins with a digit, and nowhere else in what
canonical names are made of. -/
theorem splitWords_eq_none_iff (h : ∀ c ∈ text, isNameChar c = true) :
    splitWords inWord text = none ↔ HasDigitWord inWord text := by
  induction text generalizing inWord with
  | nil => exact ⟨nofun, fun h => (not_hasDigitWord_nil h).elim⟩
  | cons c rest ih =>
    obtain ⟨hHere, hRest⟩ := List.forall_mem_cons.mp h
    rw [hasDigitWord_cons_iff, splitWords_cons_eq_none_iff hHere, ih hRest]

theorem hasDigitWord_append_iff {more : List Char} :
    HasDigitWord inWord (text ++ more) ↔
      HasDigitWord inWord text ∨ HasDigitWord (endsInWord inWord text) more := by
  induction text generalizing inWord with
  | nil => simp [not_hasDigitWord_nil, endsInWord]
  | cons c rest ih =>
    rw [List.cons_append, hasDigitWord_cons_iff, hasDigitWord_cons_iff, ih, endsInWord_cons,
      or_assoc]

theorem not_hasDigitWord_of_isDigit (h : ∀ c ∈ text, c.isDigit = false) :
    ¬ HasDigitWord inWord text := by
  rintro ⟨before, digit, after, rfl, hDigit, _⟩
  have hNoDigit := h digit (List.mem_append_right before List.mem_cons_self)
  exact Bool.false_ne_true (hNoDigit.symm.trans hDigit)

theorem hasDigitWord_lead_append_iff :
    HasDigitWord false (lead ++ text) ↔ HasDigitWord false text := by
  have hNoDigit : lead.all (fun c => c.isDigit == false) = true := by rfl
  have hLead : ¬ HasDigitWord false lead :=
    not_hasDigitWord_of_isDigit fun c hMem => eq_of_beq (List.all_eq_true.mp hNoDigit c hMem)
  have hEnd : endsInWord false lead = false := by decide
  rw [hasDigitWord_append_iff, hEnd]
  exact or_iff_right hLead

theorem hasDigitWord_unqualified_iff :
    HasDigitWord false (unqualified text) ↔ HasDigitWord false text := by
  rcases unqualified_cases text with ⟨hSame, _⟩ | hLead
  · rw [hSame]
  · rw [← hasDigitWord_lead_append_iff, ← hLead]

theorem hasDigitWord_qualified_iff :
    HasDigitWord false (qualified text) ↔ HasDigitWord false text := by
  by_cases hMem : separator ∈ text
  · rw [qualified_of_mem hMem]
  · rw [qualified_of_not_mem hMem]
    exact hasDigitWord_lead_append_iff

end DigitWords

theorem capital_of_not_isLower {c : Char} (h : isLower c = false) : capital c = c := by
  simp only [isLower, Bool.or_eq_false_iff, beq_eq_false_iff_ne] at h
  obtain ⟨⟨⟨hAscii, hRing⟩, hA⟩, hO⟩ := h
  rw [capital, if_neg hRing, if_neg hA, if_neg hO]
  apply dif_neg
  rintro ⟨hFrom, hTo⟩
  have hLower : c.isLower = true :=
    Bool.and_eq_true_iff.mpr ⟨decide_eq_true hFrom, decide_eq_true hTo⟩
  exact Bool.false_ne_true (hAscii.symm.trans hLower)

theorem isLower_of_isUpper {c : Char} (h : isUpper c = true) : isLower c = false := by
  have hAll : (capitalLetters.all fun c => isLower c == false) = true := by decide
  exact eq_of_beq (of_capitalLetters hAll h)

section Capital

variable {c : Char}

theorem capital_capital (c : Char) : capital (capital c) = capital c := by
  cases hLower : isLower c with
  | true => exact capital_of_not_isLower (isLower_of_isUpper (isUpper_capital hLower))
  | false => rw [capital_of_not_isLower hLower, capital_of_not_isLower hLower]

theorem isDigit_capital (c : Char) : (capital c).isDigit = c.isDigit := by
  cases hLower : isLower c with
  | true => rw [isDigit_of_isLower hLower, isDigit_of_isUpper (isUpper_capital hLower)]
  | false => rw [capital_of_not_isLower hLower]

theorem isWordChar_capital (h : isWordChar c = true) : isWordChar (capital c) = true := by
  cases hLower : isLower c with
  | true => exact isWordChar_of_isUpper (isUpper_capital hLower)
  | false => rwa [capital_of_not_isLower hLower]

theorem isDigit_ite_capital (fresh : Bool) (c : Char) :
    (if fresh then capital c else c).isDigit = c.isDigit := by
  cases fresh with
  | true => exact isDigit_capital c
  | false => rfl

theorem isWordChar_ite_capital (fresh : Bool) (h : isWordChar c = true) :
    isWordChar (if fresh then capital c else c) = true := by
  cases fresh with
  | true => exact isWordChar_capital h
  | false => exact h

end Capital

namespace Joins

variable {fresh : Bool} {text joined : List Char}

/-- Joining words begins no word with a digit that did not begin with one before. What is joined
may be read from within a word where the text is not. -/
theorem hasDigitWord {inText inJoined : Bool} (h : Joins fresh text joined)
    (hWithin : inText = true → inJoined = true) (hDigit : HasDigitWord inJoined joined) :
    HasDigitWord inText text := by
  induction h generalizing inText inJoined with
  | nil => exact (not_hasDigitWord_nil hDigit).elim
  | @word fresh c rest joined hWord _ ih =>
    rw [hasDigitWord_cons_iff, isDigit_ite_capital, isWordChar_ite_capital fresh hWord] at hDigit
    rw [hasDigitWord_cons_iff, hWord]
    rcases hDigit with ⟨hElsewhere, hHere⟩ | hRest
    · refine .inl ⟨?_, hHere⟩
      cases inText with
      | false => rfl
      | true => rw [hWithin rfl] at hElsewhere; cases hElsewhere
    · exact .inr (ih id hRest)
  | mark hMark _ ih =>
    rw [hasDigitWord_cons_iff] at hDigit ⊢
    rw [isWordChar_of_isNamespaceMark hMark]
    rcases hDigit with ⟨_, hHere⟩ | hRest
    · cases hHere
    · exact .inr (ih nofun hRest)
  | joiner hJoiner _ ih =>
    rw [hasDigitWord_cons_iff, isWordChar_of_isJoiner hJoiner]
    exact .inr (ih nofun hDigit)

theorem self {later : Bool} (h : Joins fresh text joined) (hFresh : later = true → fresh = true) :
    Joins later joined joined := by
  induction h generalizing later with
  | nil => exact .nil
  | @word fresh c rest joined hWord _ ih =>
    have hHead : (if later then capital (if fresh then capital c else c)
        else if fresh then capital c else c) = if fresh then capital c else c := by
      cases later with
      | false => rfl
      | true => rw [hFresh rfl]; exact capital_capital c
    have hWhole : Joins later (_ :: joined) (_ :: joined) :=
      .word (isWordChar_ite_capital fresh hWord) (ih nofun)
    rwa [hHead] at hWhole
  | mark _ _ ih => exact .mark (by decide) (ih id)
  | joiner _ _ ih => exact ih fun _ => rfl

theorem append {more moreJoined : List Char} (h : Joins fresh text joined)
    (hMore : ∀ fresh, Joins fresh more moreJoined) :
    Joins fresh (text ++ more) (joined ++ moreJoined) := by
  induction h with
  | nil => exact hMore _
  | word hWord _ ih => exact .word hWord ih
  | mark hMark _ ih => exact .mark hMark ih
  | joiner hJoiner _ ih => exact .joiner hJoiner ih

end Joins

theorem joins_of_canonicalize {name suffix long : String}
    (h : canonicalize name suffix = .ok long) :
    name.toList ≠ [] ∧ ∃ joined, Joins true name.toList joined ∧
      long.toList = withSuffix suffix.toList (qualified joined) := by
  rw [canonicalize_eq_ok_iff, canonical?] at h
  split at h
  · cases h
  · rename_i hSome
    obtain ⟨joined, hJoined, rfl⟩ := Option.map_eq_some_iff.mp h
    refine ⟨?_, joined, joinWords_eq_some_iff.mp hJoined, String.toList_ofList⟩
    rwa [Ne, String.toList_eq_nil_iff, ← String.isEmpty_iff]

def stem (name suffix : String) : List Char :=
  withoutSuffix suffix.toList (unqualified name.toList)

theorem stem_subset (name suffix : String) : stem name suffix ⊆ name.toList := by
  refine List.Subset.trans ?_ (unqualified_suffix name.toList).subset
  rw [stem]
  rcases withoutSuffix_cases suffix.toList (unqualified name.toList) with
    ⟨kept, hName, _, _, hCut⟩ | ⟨hWhole, _⟩
  · rw [hCut, hName]
    exact List.subset_append_left kept _
  · rw [hWhole]
    exact List.Subset.refl _

theorem shorten_eq_ok_iff_splitWords {name suffix short : String} :
    shorten name suffix = .ok short ↔
      name ≠ "" ∧ splitWords false (stem name suffix) = some short.toList := by
  rw [shorten_eq_ok_iff, short?, ← stem]
  by_cases hEmpty : name = ""
  · simp [hEmpty]
  · rw [if_neg (mt String.isEmpty_iff.mp hEmpty), Option.map_eq_some_iff]
    constructor
    · rintro ⟨text, hText, rfl⟩
      rw [String.toList_ofList]
      exact ⟨hEmpty, hText⟩
    · rintro ⟨_, hText⟩
      exact ⟨short.toList, hText, String.ofList_toList⟩

theorem exists_shorten_eq_ok_iff {name suffix long : String}
    (h : canonicalize name suffix = .ok long) :
    (∃ short, shorten name suffix = .ok short) ↔ ¬ HasDigitWord false (stem name suffix) := by
  obtain ⟨hSome, joined, hJoins, _⟩ := joins_of_canonicalize h
  have hChars : ∀ c ∈ stem name suffix, isNameChar c = true := fun c hMem =>
    hJoins.isNameChar c (stem_subset name suffix hMem)
  simp only [← splitWords_eq_none_iff hChars, shorten_eq_ok_iff_splitWords]
  rw [← ne_eq, Option.ne_none_iff_exists']
  constructor
  · rintro ⟨short, _, hText⟩
    exact ⟨short.toList, hText⟩
  · rintro ⟨text, hText⟩
    refine ⟨String.ofList text, mt String.toList_eq_nil_iff.mpr hSome, ?_⟩
    rw [hText, String.toList_ofList]

theorem joinWords_lead_append (rest : List Char) :
    joinWords true (lead ++ rest) = (joinWords true rest).map (lead ++ ·) := by
  have hLetters : joinWords true (lead ++ rest) = ((((((((joinWords true rest).map
      (separator :: ·)).map ('i' :: ·)).map ('s' :: ·)).map ('k' :: ·)).map ('o' :: ·)).map
        ('v' :: ·)).map ('a' :: ·)).map ('S' :: ·) := rfl
  rw [hLetters]
  cases joinWords true rest <;> rfl

section Canonical

variable {name suffix long : String}

theorem joins_self_of_canonicalize (hSuffix : ∀ fresh, Joins fresh suffix.toList suffix.toList)
    (h : canonicalize name suffix = .ok long) : Joins true long.toList long.toList := by
  obtain ⟨_, joined, hJoins, hLong⟩ := joins_of_canonicalize h
  have hSelf : Joins true joined joined := hJoins.self id
  have hQualified : Joins true (qualified joined) (qualified joined) := by
    by_cases hMem : separator ∈ joined
    · rwa [qualified_of_mem hMem]
    · rw [qualified_of_not_mem hMem, ← joinWords_eq_some_iff, joinWords_lead_append,
        joinWords_eq_some_iff.mpr hSelf]
      rfl
  rw [hLong]
  by_cases hEnds : suffix.toList <:+ qualified joined
  · rwa [withSuffix_of_suffix hEnds]
  · rw [withSuffix_of_not_suffix hEnds]
    exact hQualified.append hSuffix

theorem canonicalize_of_joins_self (hSelf : Joins true long.toList long.toList)
    (hNamespace : HasNamespace long) {ending : String} (hEnds : ending.toList <:+ long.toList) :
    canonicalize long ending = .ok long := by
  rw [canonicalize_of_joinWords (List.ne_nil_of_mem hNamespace) (joinWords_eq_some_iff.mpr hSelf),
    qualified_of_mem hNamespace, withSuffix_of_suffix hEnds, String.ofList_toList]

/-- A canonical form is its own canonical form, if its suffix reads the same wherever it stands. -/
theorem canonicalize_self (hSuffix : ∀ fresh, Joins fresh suffix.toList suffix.toList)
    (h : canonicalize name suffix = .ok long) : canonicalize long "" = .ok long := by
  apply canonicalize_of_joins_self (joins_self_of_canonicalize hSuffix h)
  · exact hasNamespace_of_canonicalize h
  · rw [String.toList_empty]
    exact List.nil_suffix

theorem suffix_of_canonicalize (h : canonicalize name suffix = .ok long) :
    suffix.toList <:+ long.toList := by
  obtain ⟨_, joined, _, hLong⟩ := joins_of_canonicalize h
  rw [hLong]
  by_cases hEnds : suffix.toList <:+ qualified joined
  · rwa [withSuffix_of_suffix hEnds]
  · rw [withSuffix_of_not_suffix hEnds]
    exact List.suffix_append _ _

theorem hasDigitWord_of_canonicalize (hDigits : ∀ c ∈ suffix.toList, c.isDigit = false)
    (h : canonicalize name suffix = .ok long) (hWord : HasDigitWord false long.toList) :
    HasDigitWord false (stem name suffix) := by
  obtain ⟨_, joined, hJoins, hLong⟩ := joins_of_canonicalize h
  have hDrop {text : List Char} (hAppended : HasDigitWord false (text ++ suffix.toList)) :
      HasDigitWord false text :=
    (hasDigitWord_append_iff.mp hAppended).resolve_right (not_hasDigitWord_of_isDigit hDigits)
  have hQualified : HasDigitWord false (qualified joined) := by
    rw [hLong] at hWord
    by_cases hEnds : suffix.toList <:+ qualified joined
    · rwa [withSuffix_of_suffix hEnds] at hWord
    · rw [withSuffix_of_not_suffix hEnds] at hWord
      exact hDrop hWord
  have hName : HasDigitWord false (unqualified name.toList) :=
    hasDigitWord_unqualified_iff.mpr
      (hJoins.hasDigitWord nofun (hasDigitWord_qualified_iff.mp hQualified))
  rw [stem]
  rcases withoutSuffix_cases suffix.toList (unqualified name.toList) with
    ⟨kept, hKept, _, _, hCut⟩ | ⟨hWhole, _⟩
  · rw [hKept] at hName
    rw [hCut]
    exact hDrop hName
  · rwa [hWhole]

/-- The canonical form of a name that has a short form has one itself. -/
theorem exists_shorten_canonicalize (hSuffix : ∀ fresh, Joins fresh suffix.toList suffix.toList)
    (hDigits : ∀ c ∈ suffix.toList, c.isDigit = false) (h : canonicalize name suffix = .ok long)
    (hShort : ∃ short, shorten name suffix = .ok short) :
    ∃ short, shorten long "" = .ok short := by
  refine (exists_shorten_eq_ok_iff (canonicalize_self hSuffix h)).mpr fun hWord => ?_
  rw [stem, String.toList_empty, withoutSuffix_nil, hasDigitWord_unqualified_iff] at hWord
  exact (exists_shorten_eq_ok_iff h).mp hShort (hasDigitWord_of_canonicalize hDigits h hWord)

end Canonical

end Wiring.Name
