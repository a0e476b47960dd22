import Wiring.Proofs.Name.Rewriting

/-! # Names with either separator

A colon and a backslash both stand between namespaces, and the scanners do not tell them apart. What
is cut before a name is scanned for its short form does: the default namespace is known only with a
backslash after it, and a suffix is known for a segment of its own only with a backslash before it.
So a name may be spelled with either exactly where these two cuts do not see a colon
(`forms_respelled`).
-/
namespace Wiring.Name
set_option autoImplicit false

def respelledChar (c : Char) : Char := if c = ':' then separator else c

/-- The name with backslashes for colons. -/
def respelled (name : String) : String := String.ofList (name.toList.map respelledChar)

/-- A colon stands after the default namespace at the start, or before the suffix at the end. -/
def HidesColon (name suffix : String) : Prop :=
  "Savoksi:".toList <+: name.toList ∨ suffix ≠ "" ∧ ':' :: suffix.toList <:+ name.toList

instance (name suffix : String) : Decidable (HidesColon name suffix) :=
  inferInstanceAs (Decidable (_ ∨ _ ∧ _))

/-- Both answer, and the same, or neither does. -/
def SameResult (first second : Except Failure String) : Prop :=
  ∀ result, first = .ok result ↔ second = .ok result

section Scanners

theorem respelledChar_of_ne {c : Char} (h : c ≠ ':') : respelledChar c = c := if_neg h

theorem isNamespaceMark_respelledChar (c : Char) :
    isNamespaceMark (respelledChar c) = isNamespaceMark c := by
  by_cases hColon : c = ':'
  · rw [hColon]
    rfl
  · rw [respelledChar_of_ne hColon]

theorem respelledChar_eq_separator_iff {c : Char} :
    respelledChar c = separator ↔ c = ':' ∨ c = separator := by
  constructor
  · intro h
    rw [← isNamespaceMark_iff, ← isNamespaceMark_respelledChar, h]
    rfl
  · rintro (rfl | rfl) <;> rfl

theorem joinWords_respelled (fresh : Bool) (text : List Char) :
    joinWords fresh (text.map respelledChar) = joinWords fresh text := by
  induction text generalizing fresh with
  | nil => rfl
  | cons c rest ih =>
    rw [List.map_cons, joinWords, joinWords, ih, ih]
    by_cases hColon : c = ':'
    · rw [hColon]
      rfl
    · rw [respelledChar_of_ne hColon]

theorem splitWords_respelled (inWord : Bool) (text : List Char) :
    splitWords inWord (text.map respelledChar) = splitWords inWord text := by
  induction text generalizing inWord with
  | nil => rfl
  | cons c rest ih =>
    rw [List.map_cons, splitWords, splitWords, ih, ih]
    by_cases hColon : c = ':'
    · rw [hColon]
      rfl
    · rw [respelledChar_of_ne hColon]

end Scanners

section Cuts

variable {text start suffix : List Char}

theorem map_respelledChar_of_not_mem (h : ':' ∉ text) : text.map respelledChar = text := by
  have hSame : ∀ c ∈ text, respelledChar c = id c := by
    rintro c hMem
    apply respelledChar_of_ne
    rintro rfl
    exact h hMem
  rw [List.map_congr_left hSame, List.map_id]

theorem eq_of_map_respelledChar {part : List Char} (hSeparator : separator ∉ part)
    (h : text.map respelledChar = part) : text = part := by
  have hColon : ':' ∉ text := by
    intro hMem
    apply hSeparator
    rw [← h]
    exact List.mem_map_of_mem hMem
  rw [← h, map_respelledChar_of_not_mem hColon]

theorem map_eq_append_iff_of_not_mem (hColon : ':' ∉ suffix) (hSeparator : separator ∉ suffix) :
    text.map respelledChar = start ++ suffix ↔
      ∃ before, text = before ++ suffix ∧ before.map respelledChar = start := by
  constructor
  · intro hText
    obtain ⟨before, after, rfl, hBefore, hAfter⟩ := List.map_eq_append_iff.mp hText
    rw [eq_of_map_respelledChar hSeparator hAfter]
    exact ⟨before, rfl, hBefore⟩
  · rintro ⟨before, rfl, rfl⟩
    rw [List.map_append, map_respelledChar_of_not_mem hColon]

theorem getLast?_map_respelledChar :
    (text.map respelledChar).getLast? = some separator ↔
      text.getLast? = some ':' ∨ text.getLast? = some separator := by
  rw [List.getLast?_map, Option.map_eq_some_iff]
  simp only [respelledChar_eq_separator_iff]
  constructor
  · rintro ⟨c, hLast, rfl | rfl⟩
    · exact .inl hLast
    · exact .inr hLast
  · rintro (hLast | hLast)
    · exact ⟨':', hLast, .inl rfl⟩
    · exact ⟨separator, hLast, .inr rfl⟩

theorem withoutSuffix_append (hSome : start ≠ []) (hLast : start.getLast? ≠ some separator) :
    withoutSuffix suffix (start ++ suffix) = start := by
  rcases withoutSuffix_cases suffix (start ++ suffix) with ⟨stem, hStem, _, _, hCut⟩ | ⟨_, hAll⟩
  · rw [hCut, List.append_cancel_right hStem]
  · rcases hAll start rfl with hNil | hEnd
    · exact absurd hNil hSome
    · exact absurd hEnd hLast

theorem withoutSuffix_respelled_of_append (hColon : ':' ∉ suffix) (hSeparator : separator ∉ suffix)
    (start : List Char) (hAll : ∀ stem, start ++ text = stem ++ suffix →
      stem = [] ∨ stem.getLast? = some separator) :
    withoutSuffix suffix (text.map respelledChar) = text.map respelledChar := by
  rcases withoutSuffix_cases suffix (text.map respelledChar) with
    ⟨stem, hStem, hSome, hLast, _⟩ | ⟨hSame, _⟩
  · obtain ⟨kept, rfl, rfl⟩ := (map_eq_append_iff_of_not_mem hColon hSeparator).mp hStem
    rcases List.eq_nil_or_concat kept with rfl | ⟨others, c, rfl⟩
    · exact absurd rfl hSome
    · rw [List.concat_eq_append] at hAll hLast
      rcases hAll (start ++ (others ++ [c])) (List.append_assoc _ _ _).symm with hNil | hEnd
      · simp at hNil
      · rw [← List.append_assoc, List.getLast?_concat] at hEnd
        rw [Ne, getLast?_map_respelledChar, List.getLast?_concat] at hLast
        exact absurd (.inr hEnd) hLast
  · exact hSame

theorem withoutSuffix_respelled (hColon : ':' ∉ suffix) (hSeparator : separator ∉ suffix)
    (hHidden : suffix ≠ [] → ¬ ':' :: suffix <:+ text) :
    withoutSuffix suffix (text.map respelledChar) = (withoutSuffix suffix text).map respelledChar := by
  by_cases hNil : suffix = []
  · rw [hNil, withoutSuffix_nil, withoutSuffix_nil]
  rcases withoutSuffix_cases suffix text with ⟨stem, rfl, hSome, hLast, hCut⟩ | ⟨hWhole, hAll⟩
  · rw [hCut, List.map_append, map_respelledChar_of_not_mem hColon]
    apply withoutSuffix_append
    · exact mt List.map_eq_nil_iff.mp hSome
    · rw [Ne, getLast?_map_respelledChar, not_or]
      refine ⟨fun hMark => ?_, hLast⟩
      obtain ⟨before, rfl⟩ := List.getLast?_eq_some_iff.mp hMark
      exact hHidden hNil ⟨before, by simp⟩
  · rw [hWhole]
    exact withoutSuffix_respelled_of_append hColon hSeparator [] hAll

theorem lead_prefix_map_iff :
    lead <+: text.map respelledChar ↔ lead <+: text ∨ "Savoksi:".toList <+: text := by
  have hBare : separator ∉ "Savoksi".toList := by decide
  constructor
  · rintro ⟨rest, hRest⟩
    have hText : text.map respelledChar = "Savoksi".toList ++ separator :: rest := hRest.symm
    obtain ⟨first, others, rfl, hFirst, hOthers⟩ := List.map_eq_append_iff.mp hText
    obtain ⟨mark, more, rfl, hMark, _⟩ := List.map_eq_cons_iff.mp hOthers
    rw [eq_of_map_respelledChar hBare hFirst]
    rcases respelledChar_eq_separator_iff.mp hMark with rfl | rfl
    · exact .inr ⟨more, rfl⟩
    · exact .inl ⟨more, rfl⟩
  · rintro (⟨rest, rfl⟩ | ⟨rest, rfl⟩) <;> exact ⟨rest.map respelledChar, rfl⟩

theorem unqualified_respelled (h : ¬ "Savoksi:".toList <+: text) :
    unqualified (text.map respelledChar) = (unqualified text).map respelledChar := by
  simp only [unqualified_eq_ite, lead_prefix_map_iff, or_iff_left h]
  split
  · rw [List.map_drop]
  · rfl

end Cuts

section Hidden

theorem rewrittenFrom_append (before : Option Char) (first second : List Char) :
    ∃ last, rewrittenFrom before (first ++ second) =
      rewrittenFrom before first ++ rewrittenFrom last second := by
  induction first generalizing before with
  | nil => exact ⟨before, rfl⟩
  | cons c rest ih =>
    obtain ⟨last, hLast⟩ := ih (some c)
    refine ⟨last, ?_⟩
    rw [List.cons_append, rewrittenFrom_cons, rewrittenFrom_cons, hLast, List.append_assoc]

theorem rewrittenAfter_ne_nil (before : Option Char) (c : Char) : rewrittenAfter before c ≠ [] := by
  rw [rewrittenAfter]
  split
  · split <;> exact List.cons_ne_nil _ _
  split
  · exact List.cons_ne_nil _ _
  split <;> exact List.cons_ne_nil _ _

theorem count_rewrittenAfter (before : Option Char) (c : Char) :
    (rewrittenAfter before c).count ':' = if isNamespaceMark c then 1 else 0 := by
  by_cases hUpper : c ∈ capitalLetters
  · have hAll : (capitalLetters.all fun c =>
        smallOf c != ':' && !isNamespaceMark c) = true := by decide +kernel
    obtain ⟨hSmall, hMark⟩ := Bool.and_eq_true_iff.mp (List.all_eq_true.mp hAll c hUpper)
    rw [Bool.not_eq_true'] at hMark
    rw [rewrittenAfter, if_pos hUpper, hMark]
    split <;> simp [bne_iff_ne.mp hSmall]
  · rw [rewrittenAfter, if_neg hUpper]
    split
    · rename_i hSeparator
      rw [hSeparator]
      rfl
    split
    · rename_i hUnderscore
      rw [hUnderscore]
      rfl
    · rename_i hSeparator _
      simp [List.count_singleton, isNamespaceMark, separator, hSeparator]

theorem count_rewrittenFrom (before : Option Char) (text : List Char) :
    (rewrittenFrom before text).count ':' = text.countP isNamespaceMark := by
  induction text generalizing before with
  | nil => rfl
  | cons c rest ih =>
    rw [rewrittenFrom_cons, List.count_append, count_rewrittenAfter, ih, List.countP_cons, Nat.add_comm]

variable {suffix : List Char}

theorem countP_withoutSuffix (hColon : ':' ∉ suffix) (hSeparator : separator ∉ suffix)
    (text : List Char) :
    (withoutSuffix suffix text).countP isNamespaceMark = text.countP isNamespaceMark := by
  have hNone : suffix.countP isNamespaceMark = 0 := by
    rw [List.countP_eq_zero]
    intro c hMem hMark
    rcases (isNamespaceMark_iff c).mp hMark with rfl | rfl
    · exact hColon hMem
    · exact hSeparator hMem
  rcases withoutSuffix_cases suffix text with ⟨stem, rfl, _, _, hCut⟩ | ⟨hWhole, _⟩
  · rw [hCut, List.countP_append, hNone, Nat.add_zero]
  · rw [hWhole]

theorem unqualified_colon_append (rest : List Char) :
    unqualified ("Savoksi:".toList ++ rest) = "Savoksi:".toList ++ rest := by
  apply unqualified_of_not_isPrefix
  rintro ⟨more, hMore⟩
  exact absurd (List.append_inj_left hMore rfl) (by decide)

theorem unqualified_respelled_colon_append (rest : List Char) :
    unqualified (("Savoksi:".toList ++ rest).map respelledChar) = rest.map respelledChar :=
  unqualified_lead_append (rest.map respelledChar)

theorem countP_respelled (text : List Char) :
    (text.map respelledChar).countP isNamespaceMark = text.countP isNamespaceMark := by
  have hSame : isNamespaceMark ∘ respelledChar = isNamespaceMark :=
    funext isNamespaceMark_respelledChar
  rw [List.countP_map, hSame]

/-- A suffix is cut with a colon before it and not with a backslash. -/
theorem withoutSuffix_of_colon {text : List Char} (hColon : ':' ∉ suffix)
    (h : ':' :: suffix <:+ text) :
    withoutSuffix suffix (text.map respelledChar) =
      (withoutSuffix suffix text).map respelledChar ++ suffix := by
  obtain ⟨start, rfl⟩ := h
  have hText : start ++ ':' :: suffix = (start ++ [':']) ++ suffix := by simp
  have hCut : withoutSuffix suffix (start ++ ':' :: suffix) = start ++ [':'] := by
    rw [hText]
    apply withoutSuffix_append
    · simp
    · simp [separator]
  have hKept : (start ++ ':' :: suffix).map respelledChar =
      start.map respelledChar ++ separator :: suffix := by
    rw [List.map_append, List.map_cons, map_respelledChar_of_not_mem hColon]
    rfl
  rw [hCut, withoutSuffix_of_segment (List.nil_append _ |>.trans hKept), hKept]
  simp [respelledChar]

end Hidden

section Acceptance

variable {text suffix : List Char}

theorem isRewritable_iff_isSome :
    IsRewritable text ↔ (splitWords false text).isSome = true := by
  rw [Option.isSome_iff_exists]
  constructor
  · intro h
    exact ⟨rewritten text, splitWords_eq_some_iff.mpr ⟨h, rfl⟩⟩
  · rintro ⟨short, hShort⟩
    exact (splitWords_eq_some_iff.mp hShort).1

theorem IsRewritable.of_prefix {start : List Char} (h : IsRewritable text)
    (hPrefix : start <+: text) : IsRewritable start := by
  obtain ⟨more, rfl⟩ := hPrefix
  rw [isRewritable_iff, hasDigitWord_append_iff, not_or] at h
  obtain ⟨hChars, hDigits, _⟩ := h
  exact isRewritable_iff.mpr ⟨fun c hMem => hChars c (List.mem_append_left more hMem), hDigits⟩

theorem isRewritable_respelled_iff :
    IsRewritable (text.map respelledChar) ↔ IsRewritable text := by
  rw [isRewritable_iff_isSome, splitWords_respelled, ← isRewritable_iff_isSome]

theorem rewritten_respelled (h : IsRewritable text) :
    rewritten (text.map respelledChar) = rewritten text := by
  have hShort := splitWords_eq_some_iff.mpr ⟨h, rfl⟩
  rw [← splitWords_respelled] at hShort
  exact (splitWords_eq_some_iff.mp hShort).2.symm

theorem isRewritable_colon_append_iff :
    IsRewritable ("Savoksi:".toList ++ text) ↔ IsRewritable text := by
  have hLead : ("Savoksi:".toList ++ text).map respelledChar = lead ++ text.map respelledChar := rfl
  rw [← isRewritable_respelled_iff, hLead, isRewritable_iff_isSome, splitWords_lead_append,
    Option.isSome_map, splitWords_respelled, isRewritable_iff_isSome]

theorem prefix_withoutSuffix (start suffix : List Char) :
    start <+: withoutSuffix suffix (start ++ suffix) := by
  rcases withoutSuffix_cases suffix (start ++ suffix) with ⟨stem, hStem, _, _, hCut⟩ | ⟨hWhole, _⟩
  · exact ⟨[], by rw [hCut, List.append_nil, List.append_cancel_right hStem]⟩
  · rw [hWhole]
    exact List.prefix_append start suffix

theorem exists_withoutSuffix_colon_append (hColon : ':' ∉ suffix)
    (hSeparator : separator ∉ suffix) (rest : List Char) :
    ∃ kept, withoutSuffix suffix ("Savoksi:".toList ++ rest) = "Savoksi:".toList ++ kept ∧
      kept.map respelledChar <+: withoutSuffix suffix (rest.map respelledChar) := by
  rcases withoutSuffix_cases suffix ("Savoksi:".toList ++ rest) with
    ⟨stem, hStem, _, _, hCut⟩ | ⟨hWhole, hAll⟩
  · have hLead : lead ++ rest.map respelledChar = stem.map respelledChar ++ suffix := by
      rw [← map_respelledChar_of_not_mem hColon, ← List.map_append, ← hStem]
      rfl
    obtain ⟨start, hStart⟩ := suffix_of_suffix_lead_append hSeparator ⟨_, hLead.symm⟩
    obtain ⟨kept, rfl, _⟩ := (map_eq_append_iff_of_not_mem hColon hSeparator).mp hStart.symm
    rw [← List.append_assoc] at hStem
    refine ⟨kept, hCut.trans (List.append_cancel_right hStem).symm, ?_⟩
    rw [List.map_append, map_respelledChar_of_not_mem hColon]
    exact prefix_withoutSuffix _ suffix
  · have hSame := withoutSuffix_respelled_of_append hColon hSeparator _ hAll
    exact ⟨rest, hWhole, [], (List.append_nil _).trans hSame.symm⟩

end Acceptance

section Names

variable {name suffix : String}

theorem toList_respelled (name : String) :
    (respelled name).toList = name.toList.map respelledChar := String.toList_ofList

theorem respelled_eq_empty_iff : respelled name = "" ↔ name = "" := by
  rw [← String.toList_eq_nil_iff, toList_respelled, List.map_eq_nil_iff, String.toList_eq_nil_iff]

theorem exists_shorten_iff :
    (∃ short, shorten name suffix = .ok short) ↔ name ≠ "" ∧ IsRewritable (stem name suffix) := by
  simp only [shorten_eq_ok_iff_splitWords, splitWords_eq_some_iff]
  constructor
  · rintro ⟨short, hSome, hText, _⟩
    exact ⟨hSome, hText⟩
  · rintro ⟨hSome, hText⟩
    exact ⟨String.ofList (rewritten (stem name suffix)), hSome, hText, String.toList_ofList⟩

theorem sameResult_canonicalize (name suffix : String) :
    SameResult (canonicalize (respelled name) suffix) (canonicalize name suffix) := by
  intro long
  have hEmpty : (respelled name).isEmpty = name.isEmpty := by
    rw [Bool.eq_iff_iff, String.isEmpty_iff, String.isEmpty_iff, respelled_eq_empty_iff]
  rw [canonicalize_eq_ok_iff, canonicalize_eq_ok_iff, canonical?, canonical?, hEmpty,
    toList_respelled, joinWords_respelled]

variable (hColon : ':' ∉ suffix.toList) (hSeparator : separator ∉ suffix.toList)
include hColon hSeparator

theorem stem_respelled (h : ¬ HidesColon name suffix) :
    stem (respelled name) suffix = (stem name suffix).map respelledChar := by
  obtain ⟨hLead, hSuffix⟩ := not_or.mp h
  have hHidden (hSome : suffix.toList ≠ []) :
      ¬ ':' :: suffix.toList <:+ unqualified name.toList := by
    intro hEnds
    exact hSuffix ⟨mt String.toList_eq_nil_iff.mpr hSome,
      hEnds.trans (unqualified_suffix name.toList)⟩
  rw [stem, toList_respelled, unqualified_respelled hLead,
    withoutSuffix_respelled hColon hSeparator hHidden, ← stem]

theorem stem_respelled_of_suffix (hLead : ¬ "Savoksi:".toList <+: name.toList)
    (hEnds : ':' :: suffix.toList <:+ name.toList) :
    stem (respelled name) suffix = (stem name suffix).map respelledChar ++ suffix.toList := by
  have hNot : separator ∉ ':' :: suffix.toList :=
    List.not_mem_cons_of_ne_of_not_mem (by decide) hSeparator
  have hRest : ':' :: suffix.toList <:+ unqualified name.toList := by
    rcases unqualified_cases name.toList with ⟨hWhole, _⟩ | hName
    · rwa [hWhole]
    · rw [hName] at hEnds
      exact suffix_of_suffix_lead_append hNot hEnds
  rw [stem, toList_respelled, unqualified_respelled hLead, withoutSuffix_of_colon hColon hRest,
    ← stem]

theorem countP_stem_respelled (hLead : "Savoksi:".toList <+: name.toList) :
    (stem name suffix).countP isNamespaceMark =
      (stem (respelled name) suffix).countP isNamespaceMark + 1 := by
  obtain ⟨rest, hRest⟩ := hLead
  have hOne : "Savoksi:".toList.countP isNamespaceMark = 1 := by decide
  rw [stem, stem, countP_withoutSuffix hColon hSeparator, countP_withoutSuffix hColon hSeparator,
    toList_respelled, ← hRest, unqualified_colon_append, unqualified_respelled_colon_append,
    countP_respelled, List.countP_append, hOne, Nat.add_comm]

/-- Where a colon hides something, the short forms differ. -/
theorem rewritten_stem_respelled_ne (h : HidesColon name suffix)
    (hText : IsRewritable (stem name suffix)) :
    rewritten (stem (respelled name) suffix) ≠ rewritten (stem name suffix) := by
  intro hSame
  by_cases hLead : "Savoksi:".toList <+: name.toList
  · have hMarks := congrArg (List.count ':') hSame
    rw [rewritten, rewritten, count_rewrittenFrom, count_rewrittenFrom,
      countP_stem_respelled hColon hSeparator hLead] at hMarks
    omega
  · obtain ⟨hSome, hEnds⟩ := h.resolve_left hLead
    obtain ⟨last, hLast⟩ :=
      rewrittenFrom_append none ((stem name suffix).map respelledChar) suffix.toList
    obtain ⟨c, rest, hSuffix⟩ :=
      List.exists_cons_of_ne_nil (mt String.toList_eq_nil_iff.mp hSome)
    rw [stem_respelled_of_suffix hColon hSeparator hLead hEnds, ← rewritten_respelled hText,
      rewritten, rewritten, hLast, List.append_right_eq_self, hSuffix] at hSame
    exact rewrittenAfter_ne_nil last c (List.append_eq_nil_iff.mp hSame).1

theorem isRewritable_stem_of_respelled (h : IsRewritable (stem (respelled name) suffix)) :
    IsRewritable (stem name suffix) := by
  by_cases hLead : "Savoksi:".toList <+: name.toList
  · obtain ⟨rest, hRest⟩ := hLead
    obtain ⟨kept, hStem, hPrefix⟩ := exists_withoutSuffix_colon_append hColon hSeparator rest
    rw [stem, toList_respelled, ← hRest, unqualified_respelled_colon_append] at h
    rw [stem, ← hRest, unqualified_colon_append, hStem, isRewritable_colon_append_iff,
      ← isRewritable_respelled_iff]
    exact h.of_prefix hPrefix
  by_cases hEnds : suffix ≠ "" ∧ ':' :: suffix.toList <:+ name.toList
  · rw [stem_respelled_of_suffix hColon hSeparator hLead hEnds.2] at h
    exact isRewritable_respelled_iff.mp (h.of_prefix (List.prefix_append _ _))
  · rw [stem_respelled hColon hSeparator (not_or.mpr ⟨hLead, hEnds⟩)] at h
    exact isRewritable_respelled_iff.mp h

end Names

/-- With either separator a name has the same canonical form. It has the same short form as well
unless it has one with colons that hide something. -/
theorem forms_respelled {name suffix : String} (hColon : ':' ∉ suffix.toList)
    (hSeparator : separator ∉ suffix.toList) :
    SameResult (canonicalize (respelled name) suffix) (canonicalize name suffix) ∧
    (SameResult (shorten (respelled name) suffix) (shorten name suffix) ↔
      ¬ (HidesColon name suffix ∧ ∃ short, shorten name suffix = .ok short)) := by
  refine ⟨sameResult_canonicalize name suffix, ?_⟩
  constructor
  · rintro hSame ⟨hHidden, short, hShort⟩
    have hOther := (hSame short).mpr hShort
    rw [shorten_eq_ok_iff_splitWords, splitWords_eq_some_iff] at hShort hOther
    obtain ⟨_, hText, hShort⟩ := hShort
    obtain ⟨_, _, hOther⟩ := hOther
    exact rewritten_stem_respelled_ne hColon hSeparator hHidden hText (hOther.symm.trans hShort)
  · intro hNot
    by_cases hHidden : HidesColon name suffix
    · have hNone : ¬ ∃ short, shorten name suffix = .ok short := fun hSome =>
        hNot ⟨hHidden, hSome⟩
      have hOther : ¬ ∃ short, shorten (respelled name) suffix = .ok short := by
        rw [exists_shorten_iff] at hNone ⊢
        rintro ⟨hName, hText⟩
        apply hNone
        exact ⟨mt respelled_eq_empty_iff.mpr hName,
          isRewritable_stem_of_respelled hColon hSeparator hText⟩
      exact fun short => iff_of_false (not_exists.mp hOther short) (not_exists.mp hNone short)
    · intro short
      rw [shorten_eq_ok_iff_splitWords, shorten_eq_ok_iff_splitWords, Ne, respelled_eq_empty_iff,
        stem_respelled hColon hSeparator hHidden, splitWords_respelled]

theorem forms_respelled_namespaces :
    ':' ∉ "Komento".toList ∧ separator ∉ "Komento".toList ∧
      respelled "Oma:Kieli:AsennaKomento" = "Oma\\Kieli\\AsennaKomento" ∧
      ¬ HidesColon "Oma:Kieli:AsennaKomento" "Komento" ∧
      shorten "Oma\\Kieli\\AsennaKomento" "Komento" = .ok "oma:kieli:asenna" := by
  have hColon : ':' ∉ "Komento".toList := by decide
  have hSeparator : separator ∉ "Komento".toList := by decide
  have hRespelled : respelled "Oma:Kieli:AsennaKomento" = "Oma\\Kieli\\AsennaKomento" := by rfl
  have hSeen : ¬ HidesColon "Oma:Kieli:AsennaKomento" "Komento" := by decide
  have hShort : shorten "Oma:Kieli:AsennaKomento" "Komento" = .ok "oma:kieli:asenna" := by rfl
  have hSame := (forms_respelled hColon hSeparator).2.mpr fun hHidden => hSeen hHidden.1
  rw [hRespelled] at hSame
  exact ⟨hColon, hSeparator, hRespelled, hSeen, (hSame _).mpr hShort⟩

/-- With a colon before it, a suffix is cut that is a segment of its own, and the default namespace
stays with one after it. -/
theorem shorten_respelled_ne :
    (respelled "Oma:Komento" = "Oma\\Komento" ∧ shorten "Oma:Komento" "Komento" = .ok "oma:" ∧
      shorten "Oma\\Komento" "Komento" = .ok "oma:komento") ∧
    respelled "Savoksi:Kieli" = "Savoksi\\Kieli" ∧
      shorten "Savoksi:Kieli" "" = .ok "savoksi:kieli" ∧
      shorten "Savoksi\\Kieli" "" = .ok "kieli" := by
  exact ⟨⟨rfl, rfl, rfl⟩, rfl, rfl, rfl⟩

end Wiring.Name
