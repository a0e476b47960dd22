import Wiring.Proofs.Name.OwnForm
import Wiring.Proofs.Name.Segments

/-! # Short names, character by character

The default namespace and the suffix are cut from a name. What is left has a short form if each
digit in it goes on a word, and then its characters are rewritten one by one, with no more than a
look at the one before (`shorten_form`). The scanner that reads it word by word says the same, and
gets on with each pass.
-/
namespace Wiring.Name
set_option autoImplicit false

def wordAlphabet : List Char := smallLetters ++ capitalLetters ++ "0123456789".toList

/-- The small letter of a capital. Any other character is its own. -/
def smallOf (c : Char) : Char := ((capitalLetters.zip smallLetters).lookup c).getD c

/-- A capital within a word begins a new one. -/
def rewrittenAfter (before : Option Char) (c : Char) : List Char :=
  if c ∈ capitalLetters then
    if before.any (· ∈ wordAlphabet) then ['-', smallOf c] else [smallOf c]
  else if c = '\\' then [':']
  else if c = '_' then ['-']
  else [c]

def rewrittenFrom (before : Option Char) (text : List Char) : List Char :=
  ((before :: text.map some).zip text).flatMap fun (before, c) => rewrittenAfter before c

def rewritten (text : List Char) : List Char := rewrittenFrom none text

/-- What is left of a name for its short form. A suffix stays if nothing else is left or if it is a
segment of its own. -/
def body (name suffix : String) : List Char :=
  let rest :=
    if "Savoksi\\".toList <+: name.toList then name.toList.drop "Savoksi\\".length else name.toList
  if suffix ≠ "" ∧ suffix.toList <:+ name.toList ∧ suffix.length < rest.length ∧
      ¬ '\\' :: suffix.toList <:+ name.toList then
    rest.take (rest.length - suffix.length)
  else rest

/-- No digit stands at the start or right after a mark or a joiner. -/
structure DigitsWithin (text : List Char) : Prop where
  first : ∀ c, text.head? = some c → c.isDigit = false
  after : ∀ mark c, [mark, c] <:+: text → mark ∈ ":\\-_".toList → c.isDigit = false

structure IsRewritable (text : List Char) : Prop where
  chars : ∀ c ∈ text, c ∈ nameAlphabet
  digits : DigitsWithin text

theorem separator_cons_suffix_iff {stem suffix : List Char} :
    separator :: suffix <:+ stem ++ suffix ↔ stem.getLast? = some separator := by
  constructor
  · rintro ⟨start, hStart⟩
    have hSame : (start ++ [separator]) ++ suffix = stem ++ suffix := by simpa using hStart
    rw [← List.append_cancel_right hSame, List.getLast?_concat]
  · intro hLast
    obtain ⟨start, rfl⟩ := List.getLast?_eq_some_iff.mp hLast
    exact ⟨start, by simp⟩

theorem unqualified_eq_ite (name : List Char) :
    unqualified name = if lead <+: name then name.drop lead.length else name := by
  by_cases hLead : lead <+: name
  · obtain ⟨rest, rfl⟩ := hLead
    rw [unqualified_lead_append, if_pos (List.prefix_append lead rest), List.drop_left]
  · rw [unqualified_of_not_isPrefix hLead, if_neg hLead]

/-- A suffix is cut from what is left of a name if it is longer and has no separator right before
the suffix. -/
theorem withoutSuffix_eq_ite {name rest suffix : List Char} (hRest : rest <:+ name) :
    withoutSuffix suffix rest =
      if suffix ≠ [] ∧ suffix <:+ name ∧ suffix.length < rest.length ∧
          ¬ separator :: suffix <:+ name then
        rest.take (rest.length - suffix.length)
      else rest := by
  rcases withoutSuffix_cases suffix rest with ⟨stem, rfl, hSome, hLast, hCut⟩ | ⟨hWhole, hAll⟩
  · rw [hCut]
    by_cases hNil : suffix = []
    · rw [if_neg fun hCond => hCond.1 hNil, hNil, List.append_nil]
    · have hPositive : 0 < stem.length := List.length_pos_iff.mpr hSome
      have hSegment : ¬ separator :: suffix <:+ name := by
        intro hSegment
        have hLength : (separator :: suffix).length ≤ (stem ++ suffix).length := by
          simp only [List.length_cons, List.length_append]
          omega
        have hHere := List.suffix_of_suffix_length_le hSegment hRest hLength
        exact hLast (separator_cons_suffix_iff.mp hHere)
      have hLonger : suffix.length < (stem ++ suffix).length := by
        rw [List.length_append]
        omega
      rw [if_pos ⟨hNil, (List.suffix_append stem suffix).trans hRest, hLonger, hSegment⟩]
      simp
  · rw [hWhole, if_neg]
    rintro ⟨_, hEnds, hLonger, hSegment⟩
    obtain ⟨stem, rfl⟩ := List.suffix_of_suffix_length_le hEnds hRest (Nat.le_of_lt hLonger)
    rcases hAll stem rfl with rfl | hLast
    · simp at hLonger
    · exact hSegment ((separator_cons_suffix_iff.mpr hLast).trans hRest)

theorem body_eq_stem (name suffix : String) : body name suffix = stem name suffix := by
  have hLead : "Savoksi\\".toList = lead := by rfl
  have hLength : "Savoksi\\".length = lead.length := by rfl
  have hSome : suffix ≠ "" ↔ suffix.toList ≠ [] := not_congr String.toList_eq_nil_iff.symm
  have hSuffix : suffix.length = suffix.toList.length := String.length_toList.symm
  rw [stem, withoutSuffix_eq_ite (unqualified_suffix name.toList), unqualified_eq_ite, body, hLead,
    hLength, hSuffix]
  simp only [hSome]
  rfl

theorem isWordChar_iff_mem (c : Char) : isWordChar c = true ↔ c ∈ wordAlphabet := by
  constructor
  · intro h
    have hName : isNameChar c = true := by rw [isNameChar, h, Bool.true_or, Bool.true_or]
    rw [isNameChar_iff, nameAlphabet, List.mem_append] at hName
    rw [wordAlphabet, List.mem_append]
    rcases hName with hLetter | hOther
    · exact .inl hLetter
    · have hAll : ("0123456789:\\-_".toList.all fun c =>
          !isWordChar c || decide (c ∈ "0123456789".toList)) = true := by decide
      have hDigit := List.all_eq_true.mp hAll c hOther
      rw [h, Bool.not_true, Bool.false_or, decide_eq_true_iff] at hDigit
      exact .inr hDigit
  · have hAll : wordAlphabet.all isWordChar = true := by decide
    exact List.all_eq_true.mp hAll c

theorem isUpper_iff_mem (c : Char) : isUpper c = true ↔ c ∈ capitalLetters := by
  have hAll : capitalLetters.all isUpper = true := by decide
  exact ⟨mem_capitalLetters, List.all_eq_true.mp hAll c⟩

theorem smallOf_of_isUpper {c : Char} (h : isUpper c = true) : smallOf c = small c := by
  have hAll : (capitalLetters.all fun c => smallOf c == small c) = true := by decide +kernel
  exact eq_of_beq (of_capitalLetters hAll h)

section Rewriting

variable {before : Option Char} {c : Char} {rest text : List Char}

theorem any_mem_wordAlphabet (before : Option Char) :
    before.any (· ∈ wordAlphabet) = before.any isWordChar := by
  cases before with
  | none => rfl
  | some b => exact Bool.eq_iff_iff.mpr (decide_eq_true_iff.trans (isWordChar_iff_mem b).symm)

theorem rewrittenAfter_of_isUpper (h : isUpper c = true) :
    rewrittenAfter before c = if before.any isWordChar then ['-', small c] else [small c] := by
  rw [rewrittenAfter, if_pos ((isUpper_iff_mem c).mp h), smallOf_of_isUpper h,
    any_mem_wordAlphabet]

theorem rewrittenAfter_of_isTail (h : isTail c = true) : rewrittenAfter before c = [c] := by
  have hWord : isWordChar c = true := isWordChar_of_isTail h
  have hUpper : c ∉ capitalLetters := by
    rw [← isUpper_iff_mem, isUpper_of_isTail h]
    exact Bool.false_ne_true
  have hUnderscore : c ≠ '_' := by
    rintro rfl
    cases hWord
  have hSeparator : c ≠ '\\' := ne_separator_of_isWordChar hWord
  rw [rewrittenAfter, if_neg hUpper, if_neg hSeparator, if_neg hUnderscore]

theorem splitWords_cons (h : isNameChar c = true)
    (hDigit : before.any isWordChar = true ∨ c.isDigit = false) :
    splitWords (before.any isWordChar) (c :: rest) =
      (splitWords (isWordChar c) rest).map (rewrittenAfter before c ++ ·) := by
  rw [isNameChar, Bool.or_eq_true, Bool.or_eq_true, isWordChar_iff] at h
  rcases h with ((hLower | hUpper | hNumber) | hMark) | hJoiner
  · have hTail : isTail c = true := by rw [isTail, hLower, Bool.true_or]
    rw [splitWords_cons_of_isLower _ hLower, rewrittenAfter_of_isTail hTail,
      isWordChar_of_isTail hTail]
    rfl
  · rw [splitWords_cons_of_isUpper hUpper, rewrittenAfter_of_isUpper hUpper,
      isWordChar_of_isUpper hUpper]
    cases before.any isWordChar <;> rfl
  · have hTail : isTail c = true := by rw [isTail, hNumber, Bool.or_true]
    have hInWord : before.any isWordChar = true := by
      rcases hDigit with hInWord | hNot
      · exact hInWord
      · cases hNumber.symm.trans hNot
    rw [hInWord, splitWords_cons_of_isTail hTail, rewrittenAfter_of_isTail hTail,
      isWordChar_of_isTail hTail]
    rfl
  · rcases (isNamespaceMark_iff c).mp hMark with rfl | rfl <;> rfl
  · rcases (isJoiner_iff c).mp hJoiner with rfl | rfl <;> rfl

theorem rewrittenFrom_cons (before : Option Char) (c : Char) (rest : List Char) :
    rewrittenFrom before (c :: rest) = rewrittenAfter before c ++ rewrittenFrom (some c) rest := rfl

/-- The scanner rewrites each character by the one before it. -/
theorem splitWords_eq_rewrittenFrom (before : Option Char)
    (h : ∀ c ∈ text, isNameChar c = true) (hDigits : ¬ HasDigitWord (before.any isWordChar) text) :
    splitWords (before.any isWordChar) text = some (rewrittenFrom before text) := by
  induction text generalizing before with
  | nil => rfl
  | cons c rest ih =>
    obtain ⟨hHere, hRest⟩ := List.forall_mem_cons.mp h
    rw [hasDigitWord_cons_iff, not_or, not_and, Bool.not_eq_true] at hDigits
    have hDigit : before.any isWordChar = true ∨ c.isDigit = false := by
      cases hInWord : before.any isWordChar with
      | true => exact .inl rfl
      | false => exact .inr (hDigits.1 hInWord)
    have hFollowing : splitWords ((some c).any isWordChar) rest =
        some (rewrittenFrom (some c) rest) := ih (some c) hRest hDigits.2
    rw [splitWords_cons hHere hDigit, rewrittenFrom_cons]
    exact congrArg (Option.map (rewrittenAfter before c ++ ·)) hFollowing

theorem isNameChar_of_splitWords {inWord : Bool} {short : List Char}
    (h : splitWords inWord text = some short) : ∀ c ∈ text, isNameChar c = true := by
  fun_induction splitWords inWord text generalizing short with
  | case1 => exact List.forall_mem_nil _
  | case2 inWord c rest hMark ih =>
    obtain ⟨tail, hTail, _⟩ := Option.map_eq_some_iff.mp h
    exact List.forall_mem_cons.mpr ⟨by simp [isNameChar, hMark], ih hTail⟩
  | case3 inWord c rest _ hJoiner ih =>
    obtain ⟨tail, hTail, _⟩ := Option.map_eq_some_iff.mp h
    exact List.forall_mem_cons.mpr ⟨by simp [isNameChar, hJoiner], ih hTail⟩
  | case4 inWord c rest _ _ hUpper ih =>
    obtain ⟨tail, hTail, _⟩ := Option.map_eq_some_iff.mp h
    exact List.forall_mem_cons.mpr ⟨by simp [isNameChar, isWordChar_of_isUpper hUpper], ih hTail⟩
  | case5 inWord c rest _ _ _ hTailChar ih =>
    obtain ⟨tail, hTail, _⟩ := Option.map_eq_some_iff.mp h
    have hWord : isWordChar c = true := by
      rw [isWordChar_iff]
      rcases Bool.or_eq_true_iff.mp hTailChar with hLower | hDigit
      · exact .inl hLower
      · exact .inr (.inr (Bool.and_eq_true_iff.mp hDigit).2)
    exact List.forall_mem_cons.mpr ⟨by simp [isNameChar, hWord], ih hTail⟩
  | case6 => cases h

end Rewriting

theorem mem_delimiters_iff {c : Char} (h : c ∈ nameAlphabet) :
    c ∈ ":\\-_".toList ↔ isWordChar c = false := by
  constructor
  · have hAll : (":\\-_".toList.all fun c => isWordChar c == false) = true := by decide
    exact fun hMem => eq_of_beq (List.all_eq_true.mp hAll c hMem)
  · intro hWord
    rw [← isNameChar_iff, isNameChar, hWord, Bool.false_or, Bool.or_eq_true, isNamespaceMark_iff,
      isJoiner_iff] at h
    rcases h with (rfl | rfl) | rfl | rfl <;> decide

theorem endsInWord_concat (inWord : Bool) (text : List Char) (c : Char) :
    endsInWord inWord (text ++ [c]) = isWordChar c := by
  rw [endsInWord, List.getLast?_concat]
  rfl

theorem digitsWithin_iff {text : List Char} (h : ∀ c ∈ text, c ∈ nameAlphabet) :
    DigitsWithin text ↔ ¬ HasDigitWord false text := by
  constructor
  · rintro ⟨hFirst, hAfter⟩ ⟨before, digit, after, rfl, hDigit, hBefore⟩
    rcases List.eq_nil_or_concat before with rfl | ⟨start, mark, rfl⟩
    · cases hDigit.symm.trans (hFirst digit rfl)
    · rw [List.concat_eq_append] at hBefore h hAfter
      rw [endsInWord_concat] at hBefore
      have hPair : [mark, digit] <:+: start ++ [mark] ++ digit :: after :=
        ⟨start, after, by simp⟩
      have hMark : mark ∈ ":\\-_".toList :=
        (mem_delimiters_iff (h mark (hPair.subset List.mem_cons_self))).mpr hBefore
      cases hDigit.symm.trans (hAfter mark digit hPair hMark)
  · intro hNot
    constructor
    · intro c hFirst
      obtain ⟨rest, rfl⟩ := List.head?_eq_some_iff.mp hFirst
      rw [← Bool.not_eq_true]
      intro hDigit
      exact hNot ⟨[], c, rest, rfl, hDigit, rfl⟩
    · rintro mark c ⟨start, after, rfl⟩ hMark
      have hMem : mark ∈ start ++ [mark, c] ++ after := by simp
      rw [← Bool.not_eq_true]
      intro hDigit
      refine hNot ⟨start ++ [mark], c, after, by simp, hDigit, ?_⟩
      rw [endsInWord_concat]
      exact (mem_delimiters_iff (h mark hMem)).mp hMark

theorem isRewritable_iff {text : List Char} :
    IsRewritable text ↔ (∀ c ∈ text, isNameChar c = true) ∧ ¬ HasDigitWord false text := by
  simp only [isNameChar_iff]
  constructor
  · rintro ⟨hChars, hDigits⟩
    exact ⟨hChars, (digitsWithin_iff hChars).mp hDigits⟩
  · rintro ⟨hChars, hDigits⟩
    exact ⟨hChars, (digitsWithin_iff hChars).mpr hDigits⟩

theorem splitWords_eq_some_iff {text short : List Char} :
    splitWords false text = some short ↔ IsRewritable text ∧ short = rewritten text := by
  have hRewritten (h : IsRewritable text) : splitWords false text = some (rewritten text) := by
    obtain ⟨hChars, hDigits⟩ := isRewritable_iff.mp h
    exact splitWords_eq_rewrittenFrom none hChars hDigits
  constructor
  · intro hShort
    have hChars := isNameChar_of_splitWords hShort
    have hDigits : ¬ HasDigitWord false text := by
      rw [← splitWords_eq_none_iff hChars, hShort]
      exact Option.some_ne_none short
    have hText : IsRewritable text := isRewritable_iff.mpr ⟨hChars, hDigits⟩
    exact ⟨hText, Option.some.inj (hShort.symm.trans (hRewritten hText))⟩
  · rintro ⟨hText, rfl⟩
    exact hRewritten hText

def firstWord : List Char → List Char × List Char
  | [] => ([], [])
  | first :: rest =>
    if isLetter first then (small first :: rest.takeWhile isTail, rest.dropWhile isTail)
    else ([], first :: rest)

/-- What is written after a word, and what is left then. A capital is left to the next pass. -/
def afterWord? : List Char → Option (List Char × List Char)
  | [] => some ([], [])
  | c :: rest =>
    if isNamespaceMark c then some ([':'], rest)
    else if isJoiner c then some (['-'], rest)
    else if isUpper c then some (['-'], c :: rest)
    else none

def pass? (text : List Char) : Option (List Char × List Char) :=
  (afterWord? (firstWord text).2).map fun step => ((firstWord text).1 ++ step.1, step.2)

/-- The passes over a text until nothing is left or one of them fails, and what is written. -/
inductive Scans : (passes : Nat) → List Char → Option (List Char) → Prop
  | done : Scans 0 [] (some [])
  | refused {c : Char} {rest : List Char} : pass? (c :: rest) = none → Scans 1 (c :: rest) none
  | more {passes : Nat} {c : Char} {rest written left : List Char} {answer : Option (List Char)} :
    pass? (c :: rest) = some (written, left) → Scans passes left answer →
    Scans (passes + 1) (c :: rest) (answer.map (written ++ ·))

section Passes

variable {inWord : Bool} {c : Char} {rest text : List Char}

theorem splitWords_takeWhile (rest : List Char) :
    splitWords true rest =
      (splitWords true (rest.dropWhile isTail)).map (rest.takeWhile isTail ++ ·) := by
  induction rest with
  | nil => rfl
  | cons c rest ih =>
    cases hTail : isTail c with
    | true =>
      rw [splitWords_cons_of_isTail hTail, ih, List.dropWhile_cons_of_pos hTail,
        List.takeWhile_cons_of_pos hTail, Option.map_map]
      rfl
    | false =>
      have hNot : ¬ isTail c = true := Bool.eq_false_iff.mp hTail
      rw [List.dropWhile_cons_of_neg hNot, List.takeWhile_cons_of_neg hNot]
      exact (Option.map_id_apply).symm

theorem small_of_isLower (h : isLower c = true) : small c = c := by
  have hAll : (smallLetters.all fun c => small c == c) = true := by decide
  exact eq_of_beq (of_smallLetters hAll h)

theorem splitWords_letter (h : isLetter c = true) (rest : List Char) :
    splitWords false (c :: rest) = (splitWords true rest).map (small c :: ·) := by
  rcases Bool.or_eq_true_iff.mp h with hLower | hUpper
  · rw [splitWords_cons_of_isLower false hLower, small_of_isLower hLower]
  · rw [splitWords_cons_of_isUpper hUpper]
    rfl

def goOn (step : Option (List Char × List Char)) : Option (List Char) :=
  step.bind fun step => (splitWords false step.2).map (step.1 ++ ·)

theorem goOn_map (word : List Char) (step : Option (List Char × List Char)) :
    goOn (step.map fun step => (word ++ step.1, step.2)) = (goOn step).map (word ++ ·) := by
  cases step with
  | none => rfl
  | some step =>
    rw [Option.map_some, goOn, goOn, Option.bind_some, Option.bind_some, Option.map_map]
    exact congrArg (Option.map · _) (funext fun text => List.append_assoc word step.1 text)

theorem splitWords_afterWord
    (h : ∀ c, rest.head? = some c → (if inWord then isTail c else isLetter c) = false) :
    splitWords inWord rest = goOn (afterWord? rest) := by
  cases rest with
  | nil => rfl
  | cons c rest =>
    have hStops := h c rfl
    rw [splitWords, afterWord?]
    split
    · rfl
    split
    · rfl
    split
    · rename_i hUpper
      cases inWord with
      | false =>
        have hLetter : isLetter c = true := by rw [isLetter, hUpper, Bool.or_true]
        cases hLetter.symm.trans hStops
      | true =>
        rw [goOn, Option.bind_some, splitWords_cons_of_isUpper hUpper, Option.map_map]
        rfl
    · have hNone : (isLower c || (inWord && c.isDigit)) = false := by
        cases inWord with
        | false =>
          rw [Bool.false_and, Bool.or_false]
          exact (Bool.or_eq_false_iff.mp hStops).1
        | true => exact hStops
      rw [hNone]
      rfl

theorem isTail_of_head?_dropWhile (h : (rest.dropWhile isTail).head? = some c) :
    isTail c = false := by
  have hNot := List.head?_dropWhile_not isTail rest
  rw [h] at hNot
  exact hNot

theorem splitWords_pass (c : Char) (rest : List Char) :
    splitWords false (c :: rest) = goOn (pass? (c :: rest)) := by
  rw [pass?, goOn_map, firstWord]
  cases hLetter : isLetter c with
  | true =>
    rw [splitWords_letter hLetter, splitWords_takeWhile,
      splitWords_afterWord fun _ => isTail_of_head?_dropWhile, Option.map_map]
    rfl
  | false =>
    rw [splitWords_afterWord]
    · exact (Option.map_id_apply).symm
    · intro first hFirst
      cases hFirst
      exact hLetter

theorem left_of_afterWord {mark left : List Char} (h : afterWord? (c :: rest) = some (mark, left)) :
    left = rest ∨ isUpper c = true ∧ left = c :: rest := by
  rw [afterWord?] at h
  split at h
  · cases h
    exact .inl rfl
  split at h
  · cases h
    exact .inl rfl
  split at h
  · rename_i hUpper
    cases h
    exact .inr ⟨hUpper, rfl⟩
  · cases h

theorem length_afterWord_le {text mark left : List Char} (h : afterWord? text = some (mark, left)) :
    left.length ≤ text.length := by
  cases text with
  | nil =>
    cases h
    exact Nat.le_refl 0
  | cons c rest =>
    rcases left_of_afterWord h with rfl | ⟨_, rfl⟩
    · exact Nat.le_succ _
    · exact Nat.le_refl _

theorem length_lt_of_pass {written left : List Char} (h : pass? (c :: rest) = some (written, left)) :
    left.length < (c :: rest).length := by
  obtain ⟨⟨mark, after⟩, hAfter, hSame⟩ := Option.map_eq_some_iff.mp h
  cases hSame
  rw [firstWord] at hAfter
  cases hLetter : isLetter c with
  | true =>
    rw [if_pos hLetter] at hAfter
    have hLeft : after.length ≤ (rest.dropWhile isTail).length := length_afterWord_le hAfter
    have hDropped : (rest.dropWhile isTail).length ≤ rest.length :=
      (List.dropWhile_suffix isTail).length_le
    show after.length < rest.length + 1
    omega
  | false =>
    rw [if_neg (Bool.eq_false_iff.mp hLetter)] at hAfter
    rcases left_of_afterWord hAfter with rfl | ⟨hUpper, _⟩
    · exact Nat.lt_succ_self _
    · rw [isLetter, hUpper, Bool.or_true] at hLetter
      cases hLetter

/-- The scanner ends, after one pass for each character at most. -/
theorem exists_scans (text : List Char) :
    ∃ passes ≤ text.length, Scans passes text (splitWords false text) := by
  induction text using (measure List.length).wf.induction with
  | h text ih =>
    cases text with
    | nil => exact ⟨0, Nat.le_refl 0, .done⟩
    | cons c rest =>
      rw [splitWords_pass]
      cases hPass : pass? (c :: rest) with
      | none => exact ⟨1, Nat.succ_le_succ (Nat.zero_le _), .refused hPass⟩
      | some pair =>
        obtain ⟨written, left⟩ := pair
        have hShorter : left.length < (c :: rest).length := length_lt_of_pass hPass
        obtain ⟨passes, hPasses, hScans⟩ := ih left hShorter
        exact ⟨passes + 1, by omega, .more hPass hScans⟩

end Passes

theorem shorten_eq_error_iff {name suffix : String} {failure : Failure} :
    shorten name suffix = .error failure ↔
      (∀ short, shorten name suffix ≠ .ok short) ∧ failure = .invalidName name := by
  cases hShort : short? name suffix <;> simp [shorten, hShort, eq_comm]

/-- A name has a short form exactly if it is not empty and what is left of it is made of letters,
digits, marks and joiners, where no digit begins a word. That is then rewritten character by
character. The scanner over it ends with the same answer in any case, and a short form stays as it
is. -/
theorem shorten_form (name suffix : String) :
    (∀ short, shorten name suffix = .ok short ↔
      (name ≠ "" ∧ IsRewritable (body name suffix)) ∧
        short = String.ofList (rewritten (body name suffix))) ∧
    (∀ failure, shorten name suffix = .error failure ↔
      ¬ (name ≠ "" ∧ IsRewritable (body name suffix)) ∧ failure = .invalidName name) ∧
    (∃ passes ≤ (body name suffix).length, ∃ answer, Scans passes (body name suffix) answer ∧
      ∀ text, answer = some text ↔
        IsRewritable (body name suffix) ∧ text = rewritten (body name suffix)) ∧
    ∀ short, shorten name suffix = .ok short → short ≠ "" → shorten short "" = .ok short := by
  have hOk (short : String) : shorten name suffix = .ok short ↔
      (name ≠ "" ∧ IsRewritable (body name suffix)) ∧
        short = String.ofList (rewritten (body name suffix)) := by
    rw [shorten_eq_ok_iff_splitWords, ← body_eq_stem, splitWords_eq_some_iff, and_assoc,
      ← String.toList_inj, String.toList_ofList]
  refine ⟨hOk, fun failure => ?_, ?_, fun short => shorten_self⟩
  · rw [shorten_eq_error_iff]
    simp only [ne_eq, hOk]
    constructor
    · rintro ⟨hNone, hFailure⟩
      exact ⟨fun hName => hNone _ ⟨hName, rfl⟩, hFailure⟩
    · rintro ⟨hName, hFailure⟩
      exact ⟨fun short hShort => hName hShort.1, hFailure⟩
  · obtain ⟨passes, hPasses, hScans⟩ := exists_scans (body name suffix)
    exact ⟨passes, hPasses, _, hScans, fun text => splitWords_eq_some_iff⟩

theorem shorten_form_suffixed :
    shorten "Savoksi\\LuoÄÄni2_bKomento" "Komento" = .ok "luo-ä-äni2-b" ∧ "luo-ä-äni2-b" ≠ "" ∧
      shorten "luo-ä-äni2-b" "" = .ok "luo-ä-äni2-b" := by
  have hShort : shorten "Savoksi\\LuoÄÄni2_bKomento" "Komento" = .ok "luo-ä-äni2-b" := by rfl
  have hSome : "luo-ä-äni2-b" ≠ "" := by decide
  exact ⟨hShort, hSome, (shorten_form _ _).2.2.2 _ hShort hSome⟩

end Wiring.Name
