import Wiring.Proofs.Name.Spelling

/-! # From short names to canonical ones and back

Capitalizing the words of a short name and splitting the words of a canonical one undo each other,
letter by letter. So does what is put before and after: the default namespace, which only names
without a namespace take, and a suffix, which no name takes twice. What is dropped is not put back
where these conditions differ: below the default namespace, and where a suffix is repeated.
-/
namespace Wiring.Name
set_option autoImplicit false

section Letters

variable {c : Char} {rest : List Char} {fresh inWord : Bool}

theorem joinWords_cons_of_isWordChar (h : isWordChar c = true) :
    joinWords fresh (c :: rest) =
      (joinWords false rest).map ((if fresh then capital c else c) :: ·) := by
  rw [joinWords, if_pos h]

theorem splitWords_cons_of_isUpper (h : isUpper c = true) :
    splitWords inWord (c :: rest) =
      (splitWords true rest).map fun tail =>
        if inWord then '-' :: small c :: tail else small c :: tail := by
  have hWordChar := isWordChar_of_isUpper h
  simp only [splitWords, isNamespaceMark_of_isWordChar hWordChar, isJoiner_of_isWordChar hWordChar,
    h, if_true, Bool.false_eq_true, if_false]

theorem splitWords_cons_of_isTail (h : isTail c = true) :
    splitWords true (c :: rest) = (splitWords true rest).map (c :: ·) := by
  have hWordChar := isWordChar_of_isTail h
  have hTail : (isLower c || (true && c.isDigit)) = true := by rwa [Bool.true_and]
  simp only [splitWords, isNamespaceMark_of_isWordChar hWordChar, isJoiner_of_isWordChar hWordChar,
    isUpper_of_isTail h, hTail, if_true, Bool.false_eq_true, if_false]

end Letters

/-- The last conjunct is about a word that follows another. -/
theorem splitWords_joinWords {fresh : Bool} {name : List Char} (h : ShortText fresh name) :
    ∃ text, joinWords fresh name = some text ∧ splitWords (!fresh) text = some name ∧
      (fresh = true → splitWords true text = some ('-' :: name)) := by
  induction h with
  | nil => exact ⟨[], rfl, rfl, nofun⟩
  | @letter c rest hLower _ ih =>
    obtain ⟨text, hText, hRest, _⟩ := ih
    have hWordChar : isWordChar c = true := (isWordChar_iff c).mpr (.inl hLower)
    refine ⟨capital c :: text, ?_, ?_, fun _ => ?_⟩
    · rw [joinWords_cons_of_isWordChar hWordChar, hText]
      rfl
    · rw [splitWords_cons_of_isUpper (isUpper_capital hLower), ← Bool.not_false, hRest,
        small_capital hLower]
      rfl
    · rw [splitWords_cons_of_isUpper (isUpper_capital hLower), ← Bool.not_false, hRest,
        small_capital hLower]
      rfl
  | @tail c rest hTail _ ih =>
    obtain ⟨text, hText, hRest, _⟩ := ih
    refine ⟨c :: text, ?_, ?_, nofun⟩
    · rw [joinWords_cons_of_isWordChar (isWordChar_of_isTail hTail), hText]
      rfl
    · rw [Bool.not_false, splitWords_cons_of_isTail hTail, ← Bool.not_false, hRest]
      rfl
  | joiner _ ih =>
    obtain ⟨text, hText, _, hFollowing⟩ := ih
    exact ⟨text, hText, hFollowing rfl, nofun⟩
  | @mark rest _ ih =>
    obtain ⟨text, hText, hRest, _⟩ := ih
    refine ⟨separator :: text, ?_, ?_, nofun⟩
    · show (joinWords true rest).map (separator :: ·) = _
      rw [hText]
      rfl
    · show (splitWords false text).map (':' :: ·) = _
      rw [← Bool.not_true, hRest]
      rfl

theorem joinWords_splitWords {inWord : Bool} {text : List Char} (h : CanonicalText inWord text) :
    ∃ short, splitWords inWord text = some short ∧ joinWords (!inWord) short = some text := by
  induction h with
  | nil => exact ⟨[], rfl, rfl⟩
  | @letter inWord c rest hUpper _ ih =>
    obtain ⟨short, hShort, hRest⟩ := ih
    have hSmall : joinWords true (small c :: short) = some (c :: rest) := by
      have hWordChar : isWordChar (small c) = true :=
        (isWordChar_iff _).mpr (.inl (isLower_small hUpper))
      rw [joinWords_cons_of_isWordChar hWordChar, ← Bool.not_true, hRest, if_pos rfl,
        capital_small hUpper]
      rfl
    cases inWord with
    | false =>
      refine ⟨small c :: short, ?_, hSmall⟩
      rw [splitWords_cons_of_isUpper hUpper, hShort]
      rfl
    | true =>
      refine ⟨'-' :: small c :: short, ?_, hSmall⟩
      rw [splitWords_cons_of_isUpper hUpper, hShort]
      rfl
  | @tail c rest hTail _ ih =>
    obtain ⟨short, hShort, hRest⟩ := ih
    refine ⟨c :: short, ?_, ?_⟩
    · rw [splitWords_cons_of_isTail hTail, hShort]
      rfl
    · rw [Bool.not_true, joinWords_cons_of_isWordChar (isWordChar_of_isTail hTail),
        ← Bool.not_true, hRest]
      rfl
  | @mark inWord rest _ ih =>
    obtain ⟨short, hShort, hRest⟩ := ih
    refine ⟨':' :: short, ?_, ?_⟩
    · show (splitWords false rest).map (':' :: ·) = _
      rw [hShort]
      rfl
    · show (joinWords true short).map (separator :: ·) = _
      rw [← Bool.not_false, hRest]
      rfl

theorem getLast?_joinWords {fresh : Bool} {name text : List Char} (h : ShortText fresh name)
    (hText : joinWords fresh name = some text) :
    text.getLast? ≠ some separator ∧ (fresh = true → text ≠ []) := by
  induction h generalizing text with
  | nil =>
    cases hText
    exact ⟨nofun, nofun⟩
  | letter hLower _ ih =>
    rw [joinWords_cons_of_isWordChar ((isWordChar_iff _).mpr (.inl hLower))] at hText
    obtain ⟨rest, hRest, rfl⟩ := Option.map_eq_some_iff.mp hText
    have hHead := ne_separator_of_isWordChar (isWordChar_of_isUpper (isUpper_capital hLower))
    exact ⟨getLast?_cons_ne hHead (ih hRest).1, fun _ => List.cons_ne_nil _ _⟩
  | tail hTail _ ih =>
    have hWordChar := isWordChar_of_isTail hTail
    rw [joinWords_cons_of_isWordChar hWordChar] at hText
    obtain ⟨rest, hRest, rfl⟩ := Option.map_eq_some_iff.mp hText
    exact ⟨getLast?_cons_ne (ne_separator_of_isWordChar hWordChar) (ih hRest).1, nofun⟩
  | joiner _ ih => exact ⟨(ih hText).1, nofun⟩
  | @mark rest _ ih =>
    have hMark : (joinWords true rest).map (separator :: ·) = some text := hText
    obtain ⟨following, hRest, rfl⟩ := Option.map_eq_some_iff.mp hMark
    obtain ⟨hLast, hNonempty⟩ := ih hRest
    obtain ⟨next, more, rfl⟩ := List.exists_cons_of_ne_nil (hNonempty rfl)
    exact ⟨by rwa [List.getLast?_cons_cons], nofun⟩

def lead : List Char := defaultNamespace.toList ++ [separator]

theorem qualified_of_mem {name : List Char} (h : separator ∈ name) : qualified name = name := by
  rw [qualified, if_pos (List.contains_iff_mem.mpr h)]

theorem qualified_of_not_mem {name : List Char} (h : separator ∉ name) :
    qualified name = lead ++ name := by
  rw [qualified, if_neg fun hMem => h (List.contains_iff_mem.mp hMem), lead, List.append_assoc]
  rfl

theorem suffix_qualified (name : List Char) : name <:+ qualified name := by
  by_cases hMem : separator ∈ name
  · exact ⟨[], (qualified_of_mem hMem).symm⟩
  · rw [qualified_of_not_mem hMem]
    exact List.suffix_append lead name

theorem unqualified_lead_append (name : List Char) : unqualified (lead ++ name) = name := by
  have hPrefix : lead.isPrefixOf (lead ++ name) = true :=
    List.isPrefixOf_iff_prefix.mpr (List.prefix_append lead name)
  rw [unqualified, ← lead]
  simp only [hPrefix, if_true, List.drop_left]

theorem unqualified_of_not_isPrefix {name : List Char} (h : ¬ lead <+: name) :
    unqualified name = name := by
  rw [unqualified, ← lead]
  exact if_neg fun hPrefix => h (List.isPrefixOf_iff_prefix.mp hPrefix)

theorem lead_prefix_of_append {text more : List Char} (hMem : separator ∈ text)
    (h : lead <+: text ++ more) : lead <+: text := by
  rcases List.prefix_or_prefix_of_prefix h (List.prefix_append text more) with hLead | hText
  · exact hLead
  · have hAll : ∀ n ≤ lead.length, separator ∈ lead.take n → lead <+: lead.take n := by decide
    rw [List.prefix_iff_eq_take.mp hText] at hMem ⊢
    exact hAll text.length hText.length_le hMem

theorem unqualified_cases (name : List Char) :
    unqualified name = name ∧ ¬ lead <+: name ∨ name = lead ++ unqualified name := by
  by_cases hLead : lead <+: name
  · right
    obtain ⟨rest, rfl⟩ := hLead
    rw [unqualified_lead_append]
  · left
    exact ⟨unqualified_of_not_isPrefix hLead, hLead⟩

theorem splitWords_lead_append (rest : List Char) :
    splitWords false (lead ++ rest) = (splitWords false rest).map ("savoksi:".toList ++ ·) := by
  have hLetters : splitWords false (lead ++ rest) = ((((((((splitWords false rest).map
      (':' :: ·)).map ('i' :: ·)).map ('s' :: ·)).map ('k' :: ·)).map ('o' :: ·)).map
        ('v' :: ·)).map ('a' :: ·)).map ('s' :: ·) := rfl
  rw [hLetters]
  cases splitWords false rest <;> rfl

theorem unqualified_qualified_append {text name : List Char} (more : List Char)
    (hText : splitWords false text = some name) (hFree : ¬ "savoksi:".toList <+: name) :
    unqualified (qualified text ++ more) = text ++ more := by
  by_cases hMem : separator ∈ text
  · rw [qualified_of_mem hMem]
    refine unqualified_of_not_isPrefix fun hLead => hFree ?_
    obtain ⟨rest, rfl⟩ := lead_prefix_of_append hMem hLead
    rw [splitWords_lead_append] at hText
    obtain ⟨tail, _, rfl⟩ := Option.map_eq_some_iff.mp hText
    exact List.prefix_append _ tail
  · rw [qualified_of_not_mem hMem, List.append_assoc, unqualified_lead_append]

theorem withSuffix_of_suffix {suffix name : List Char} (h : suffix <:+ name) :
    withSuffix suffix name = name := by
  rw [withSuffix, if_pos (List.isSuffixOf_iff_suffix.mpr h)]

theorem withSuffix_of_not_suffix {suffix name : List Char} (h : ¬ suffix <:+ name) :
    withSuffix suffix name = name ++ suffix := by
  rw [withSuffix, if_neg fun hEnds => h (List.isSuffixOf_iff_suffix.mp hEnds)]

theorem withoutSuffix_cases (suffix name : List Char) :
    (∃ stem, name = stem ++ suffix ∧ stem ≠ [] ∧ stem.getLast? ≠ some separator ∧
      withoutSuffix suffix name = stem) ∨
    (withoutSuffix suffix name = name ∧
      ∀ stem, name = stem ++ suffix → stem = [] ∨ stem.getLast? = some separator) := by
  by_cases hSuffix : suffix <:+ name
  · obtain ⟨stem, rfl⟩ := hSuffix
    have hTake : (stem ++ suffix).take ((stem ++ suffix).length - suffix.length) = stem := by
      simp
    have hEnds : suffix.isSuffixOf (stem ++ suffix) = true :=
      List.isSuffixOf_iff_suffix.mpr (List.suffix_append stem suffix)
    simp only [withoutSuffix, hTake, hEnds, Bool.true_and]
    by_cases hCut : stem ≠ [] ∧ stem.getLast? ≠ some separator
    · left
      refine ⟨stem, rfl, hCut.1, hCut.2, ?_⟩
      simp [hCut.1, hCut.2]
    · right
      constructor
      · rw [if_neg]
        simpa using hCut
      · intro other hOther
        rw [← List.append_cancel_right hOther]
        exact Classical.byContradiction fun hNot => hCut (not_or.mp hNot)
  · right
    constructor
    · rw [withoutSuffix]
      refine if_neg ?_
      simp [hSuffix]
    · rintro stem rfl
      exact absurd (List.suffix_append stem suffix) hSuffix

theorem withoutSuffix_nil (name : List Char) : withoutSuffix [] name = name := by
  rcases withoutSuffix_cases [] name with ⟨stem, hStem, _, _, hCut⟩ | ⟨hWhole, _⟩
  · rw [hCut, hStem, List.append_nil]
  · exact hWhole

theorem withoutSuffix_of_segment {suffix name start stem : List Char}
    (h : start ++ name = stem ++ separator :: suffix) : withoutSuffix suffix name = name := by
  rcases withoutSuffix_cases suffix name with ⟨rest, rfl, hSome, hLast, _⟩ | ⟨hWhole, _⟩
  · have hSame : start ++ rest ++ suffix = stem ++ [separator] ++ suffix := by simpa using h
    have hEnd : (start ++ rest).getLast? = some separator := by
      rw [List.append_cancel_right hSame, List.getLast?_concat]
    have hRest := List.getLast?_eq_some_getLast hSome
    rw [List.getLast?_append, hRest, Option.some_or, ← hRest] at hEnd
    exact absurd hEnd hLast
  · exact hWhole

theorem isEmpty_of_toList_ne_nil {name : String} (h : name.toList ≠ []) : name.isEmpty = false := by
  rw [← Bool.not_eq_true, String.isEmpty_iff]
  rintro rfl
  exact h rfl

theorem canonicalize_of_joinWords {name : String} {text : List Char} (hNonempty : name.toList ≠ [])
    (hText : joinWords true name.toList = some text) (suffix : String) :
    canonicalize name suffix =
      .ok (String.ofList (withSuffix suffix.toList (qualified text))) := by
  rw [canonicalize_eq_ok_iff, canonical?, isEmpty_of_toList_ne_nil hNonempty, hText]
  rfl

theorem shorten_of_splitWords {name suffix : String} {short : List Char}
    (hNonempty : name.toList ≠ [])
    (hShort : splitWords false (withoutSuffix suffix.toList (unqualified name.toList)) =
      some short) :
    shorten name suffix = .ok (String.ofList short) := by
  rw [shorten_eq_ok_iff, short?, isEmpty_of_toList_ne_nil hNonempty, hShort]
  rfl

/-- What is put around a text is dropped again if the suffix is none, or not there yet, or made of
segments of its own. -/
theorem withoutSuffix_withSuffix {text name suffix : List Char}
    (hName : splitWords false text = some name) (hFree : ¬ "savoksi:".toList <+: name)
    (hSome : text ≠ []) (hLast : text.getLast? ≠ some separator)
    (hSuffix : suffix = [] ∨ ¬ suffix <:+ qualified text ∨
      ∃ stem, qualified text = stem ++ separator :: suffix) :
    withoutSuffix suffix (unqualified (withSuffix suffix (qualified text))) = text := by
  have hUnqualified (more : List Char) : unqualified (qualified text ++ more) = text ++ more :=
    unqualified_qualified_append more hName hFree
  by_cases hEnds : suffix <:+ qualified text
  · have hWhole := hUnqualified []
    rw [List.append_nil, List.append_nil] at hWhole
    rw [withSuffix_of_suffix hEnds, hWhole]
    obtain ⟨start, hStart⟩ := suffix_qualified text
    rcases hSuffix with rfl | hNot | ⟨stem, hSegments⟩
    · exact withoutSuffix_nil text
    · exact absurd hEnds hNot
    · exact withoutSuffix_of_segment (hStart.trans hSegments)
  · rw [withSuffix_of_not_suffix hEnds, hUnqualified]
    rcases withoutSuffix_cases suffix (text ++ suffix) with ⟨stem, hStem, _, _, hCut⟩ | ⟨_, hAll⟩
    · rw [hCut, List.append_cancel_right hStem]
    · rcases hAll text rfl with hNil | hEnd
      · exact absurd hNil hSome
      · exact absurd hEnd hLast

/-- A short name outside of the default namespace comes back from its canonical form, with a suffix
too if that is not there yet or is a segment of its own. -/
theorem shorten_canonicalize {name : String} (hName : IsShort name)
    (hFree : ¬ "savoksi:".toList <+: name.toList) :
    ∃ long, canonicalize name "" = .ok long ∧ ∀ suffix : String,
      (suffix = "" ∨ ¬ suffix.toList <:+ long.toList ∨
        ∃ stem, long.toList = stem ++ separator :: suffix.toList) →
      ∃ full, canonicalize name suffix = .ok full ∧ shorten full suffix = .ok name := by
  obtain ⟨text, hText, hSplit, _⟩ := splitWords_joinWords hName.shortText
  obtain ⟨hLast, hSome⟩ := getLast?_joinWords hName.shortText hText
  have hNonempty : name.toList ≠ [] := by
    intro hNil
    rw [hNil] at hText
    cases hText
    exact hSome rfl rfl
  refine ⟨String.ofList (qualified text), ?_, fun suffix hSuffix => ?_⟩
  · rw [canonicalize_of_joinWords hNonempty hText, String.toList_empty,
      withSuffix_of_suffix List.nil_suffix]
  rw [String.toList_ofList, ← String.toList_eq_nil_iff] at hSuffix
  have hBack := withoutSuffix_withSuffix hSplit hFree (hSome rfl) hLast hSuffix
  refine ⟨_, canonicalize_of_joinWords hNonempty hText suffix, ?_⟩
  have hFull : (String.ofList (withSuffix suffix.toList (qualified text))).toList ≠ [] := by
    rw [String.toList_ofList]
    exact List.ne_nil_of_mem (mem_withSuffix (separator_mem_qualified text) _)
  have hShort : splitWords false (withoutSuffix suffix.toList
      (unqualified (String.ofList (withSuffix suffix.toList (qualified text))).toList)) =
        some name.toList := by
    rw [String.toList_ofList, hBack]
    exact hSplit
  rw [shorten_of_splitWords hFull hShort, String.ofList_toList]

theorem shorten_canonicalize_suffixed :
    IsShort "oma:äiti2-b" ∧ ¬ "savoksi:".toList <+: "oma:äiti2-b".toList ∧
    canonicalize "oma:äiti2-b" "" = .ok "Oma\\Äiti2B" ∧
    ¬ "Komento".toList <:+ "Oma\\Äiti2B".toList ∧
    ∃ full, canonicalize "oma:äiti2-b" "Komento" = .ok full ∧
      shorten full "Komento" = .ok "oma:äiti2-b" := by
  have hShort : IsShort "oma:äiti2-b" :=
    ⟨[["oma".toList], ["äiti2".toList, "b".toList]], by decide, by decide, by decide⟩
  have hFree : ¬ "savoksi:".toList <+: "oma:äiti2-b".toList := by decide
  have hCanonical : canonicalize "oma:äiti2-b" "" = .ok "Oma\\Äiti2B" := by rfl
  have hNew : ¬ "Komento".toList <:+ "Oma\\Äiti2B".toList := by decide
  obtain ⟨long, hLong, hAll⟩ := shorten_canonicalize hShort hFree
  cases hCanonical.symm.trans hLong
  exact ⟨hShort, hFree, hCanonical, hNew, hAll "Komento" (.inr (.inl hNew))⟩

theorem suffix_of_suffix_lead_append {suffix name : List Char} (hSuffix : separator ∉ suffix)
    (h : suffix <:+ lead ++ name) : suffix <:+ name := by
  rcases List.suffix_or_suffix_of_suffix h (List.suffix_append lead name) with hEnds | ⟨more, rfl⟩
  · exact hEnds
  · obtain ⟨start, hStart⟩ := h
    have hLead : start ++ more = lead := by
      rw [← List.append_assoc] at hStart
      exact List.append_cancel_right hStart
    rcases List.eq_nil_or_concat more with rfl | ⟨others, c, rfl⟩
    · exact List.suffix_refl name
    · have hLast : c = separator := by
        have hSame := congrArg List.getLast? hLead
        rw [List.concat_eq_append, ← List.append_assoc, List.getLast?_concat, lead,
          List.getLast?_concat] at hSame
        exact Option.some.inj hSame
      simp [hLast] at hSuffix

theorem suffix_qualified_iff {suffix name : List Char} (hSuffix : separator ∉ suffix) :
    suffix <:+ qualified name ↔ suffix <:+ name := by
  constructor
  · intro h
    by_cases hMem : separator ∈ name
    · rwa [qualified_of_mem hMem] at h
    · rw [qualified_of_not_mem hMem] at h
      exact suffix_of_suffix_lead_append hSuffix h
  · exact fun h => h.trans (suffix_qualified name)

/-- The name stands in the default namespace, but not right below it. -/
def IsNested (name : String) : Prop := ∃ rest, name.toList = lead ++ rest ∧ separator ∈ rest

theorem qualified_append_eq_iff {name : String} {stem rest : List Char} (hName : HasNamespace name)
    (hRest : separator ∉ rest) (hStem : unqualified name.toList = stem ++ rest) :
    qualified stem ++ rest = name.toList ↔ ¬ IsNested name := by
  rcases unqualified_cases name.toList with ⟨hWhole, hLead⟩ | hLead
  · have hText : name.toList = stem ++ rest := hWhole.symm.trans hStem
    have hMem : separator ∈ stem := by
      have hBoth : separator ∈ stem ++ rest := hText ▸ hName
      exact (List.mem_append.mp hBoth).resolve_right hRest
    have hNot : ¬ IsNested name := by
      rintro ⟨more, hMore, _⟩
      exact hLead (hMore ▸ List.prefix_append lead more)
    rw [qualified_of_mem hMem]
    exact ⟨fun _ => hNot, fun _ => hText.symm⟩
  · rw [hStem] at hLead
    by_cases hMem : separator ∈ stem
    · have hNested : IsNested name := ⟨stem ++ rest, hLead, List.mem_append_left rest hMem⟩
      rw [qualified_of_mem hMem, hLead]
      constructor
      · intro hSame
        have hLength := congrArg List.length hSame
        simp only [List.length_append] at hLength
        have hPositive : lead.length = 8 := by decide
        omega
      · exact fun hNot => absurd hNested hNot
    · have hNot : ¬ IsNested name := by
        rintro ⟨more, hMore, hSep⟩
        rw [hLead] at hMore
        rw [← List.append_cancel_left hMore] at hSep
        exact (List.mem_append.mp hSep).elim hMem hRest
      rw [qualified_of_not_mem hMem, hLead, List.append_assoc]
      exact ⟨fun _ => hNot, fun _ => rfl⟩

theorem repeats_iff {name : String} {suffix stem : List Char} (hSuffix : separator ∉ suffix)
    (hStem : unqualified name.toList = stem ++ suffix) :
    suffix ++ suffix <:+ name.toList ↔ suffix <:+ stem := by
  have hOnce (text : List Char) : suffix ++ suffix <:+ text ++ suffix ↔ suffix <:+ text := by
    rw [List.suffix_append_inj_of_length_eq rfl, and_iff_left rfl]
  rcases unqualified_cases name.toList with ⟨hWhole, _⟩ | hLead
  · rw [← hWhole, hStem, hOnce]
  · rw [hLead, hStem, ← List.append_assoc, hOnce]
    constructor
    · exact suffix_of_suffix_lead_append hSuffix
    · exact fun h => h.trans (List.suffix_append lead stem)

theorem unqualified_suffix (name : List Char) : unqualified name <:+ name := by
  rcases unqualified_cases name with ⟨hWhole, _⟩ | hLead
  · exact ⟨[], hWhole⟩
  · exact ⟨lead, hLead.symm⟩

theorem length_unqualified_qualified_le (name : List Char) :
    (unqualified (qualified name)).length ≤ name.length := by
  by_cases hMem : separator ∈ name
  · rw [qualified_of_mem hMem]
    exact (unqualified_suffix name).length_le
  · have hSame : unqualified (qualified name) = name := by
      rw [qualified_of_not_mem hMem, unqualified_lead_append]
    exact Nat.le_of_eq (congrArg List.length hSame)

/-- What is dropped from a name is put back unless the name is nested in the default namespace or
repeats its suffix. -/
theorem withSuffix_qualified_eq_iff {name : String} {suffix : List Char} (hName : HasNamespace name)
    (hSuffix : separator ∉ suffix) (hEnds : suffix <:+ unqualified name.toList) :
    withSuffix suffix (qualified (withoutSuffix suffix (unqualified name.toList))) = name.toList ↔
      ¬ IsNested name ∧ (suffix = [] ∨ ¬ suffix ++ suffix <:+ name.toList) := by
  rcases withoutSuffix_cases suffix (unqualified name.toList) with
    ⟨stem, hStem, _, _, hCut⟩ | ⟨hWhole, hAll⟩
  · rw [hCut, repeats_iff hSuffix hStem]
    by_cases hAgain : suffix <:+ stem
    · rw [withSuffix_of_suffix ((suffix_qualified_iff hSuffix).mpr hAgain)]
      rcases List.eq_nil_or_concat suffix with rfl | ⟨others, c, rfl⟩
      · have hNone := qualified_append_eq_iff hName hSuffix hStem
        rw [List.append_nil] at hNone
        rw [hNone]
        simp
      · constructor
        · intro hSame
          have hLength := length_unqualified_qualified_le stem
          rw [hSame, hStem, List.length_append, List.length_concat] at hLength
          omega
        · rintro ⟨_, hNil | hNot⟩
          · simp at hNil
          · exact absurd hAgain hNot
    · have hNot : ¬ suffix <:+ qualified stem := fun h =>
        hAgain ((suffix_qualified_iff hSuffix).mp h)
      rw [withSuffix_of_not_suffix hNot, qualified_append_eq_iff hName hSuffix hStem]
      simp [hAgain]
  · have hQualified : suffix <:+ qualified (unqualified name.toList) :=
      hEnds.trans (suffix_qualified _)
    have hNone := qualified_append_eq_iff hName List.not_mem_nil (List.append_nil _).symm
    rw [List.append_nil] at hNone
    rw [hWhole, withSuffix_of_suffix hQualified, hNone]
    refine ⟨fun hNot => ⟨hNot, ?_⟩, And.left⟩
    obtain ⟨stem, hStem⟩ := hEnds
    rw [repeats_iff hSuffix hStem.symm]
    rcases List.eq_nil_or_concat suffix with rfl | ⟨others, c, rfl⟩
    · exact .inl rfl
    · right
      intro hAgain
      obtain ⟨start, rfl⟩ := hAgain
      rcases hAll _ hStem.symm with hNil | hLast
      · simp at hNil
      · simp at hLast
        simp [hLast] at hSuffix

theorem canonicalText_unqualified {name : String} (h : IsCanonical name) :
    CanonicalText false (unqualified name.toList) ∧ unqualified name.toList ≠ [] := by
  rcases unqualified_cases name.toList with ⟨hWhole, _⟩ | hLead
  · rw [hWhole]
    exact ⟨h.canonicalText, List.ne_nil_of_mem h.hasNamespace⟩
  · constructor
    · have hText := h.canonicalText
      rw [hLead, lead, List.append_assoc] at hText
      exact hText.of_append_separator
    · intro hNil
      rw [hNil, List.append_nil] at hLead
      exact h.getLast?_ne (hLead ▸ rfl)

/-- A canonical name comes back from its short form unless it is nested in the default namespace or
repeats the suffix that it ends with. -/
theorem canonicalize_shorten_iff {name suffix : String} (hName : IsCanonical name)
    (hSuffix : ¬ HasNamespace suffix) (hEnds : suffix.toList <:+ name.toList) :
    ∃ short back, shorten name suffix = .ok short ∧ canonicalize short suffix = .ok back ∧
      (back = name ↔ ¬ IsNested name ∧
        (suffix = "" ∨ ¬ suffix.toList ++ suffix.toList <:+ name.toList)) := by
  obtain ⟨hBody, hSome⟩ := canonicalText_unqualified hName
  have hBodyEnds : suffix.toList <:+ unqualified name.toList := by
    rcases unqualified_cases name.toList with ⟨hWhole, _⟩ | hLead
    · rwa [hWhole]
    · rw [hLead] at hEnds
      exact suffix_of_suffix_lead_append hSuffix hEnds
  obtain ⟨stem, hStem, hPrefix, hNonempty⟩ : ∃ stem,
      withoutSuffix suffix.toList (unqualified name.toList) = stem ∧
        stem <+: unqualified name.toList ∧ stem ≠ [] := by
    rcases withoutSuffix_cases suffix.toList (unqualified name.toList) with
      ⟨stem, hStem, hStemSome, _, hCut⟩ | ⟨hWhole, _⟩
    · exact ⟨stem, hCut, ⟨suffix.toList, hStem.symm⟩, hStemSome⟩
    · exact ⟨_, hWhole, List.prefix_refl _, hSome⟩
  obtain ⟨short, hSplit, hJoin⟩ := joinWords_splitWords (hBody.of_isPrefix hPrefix)
  have hShort : shorten name suffix = .ok (String.ofList short) :=
    shorten_of_splitWords (List.ne_nil_of_mem hName.hasNamespace) (hStem ▸ hSplit)
  have hBack : canonicalize (String.ofList short) suffix =
      .ok (String.ofList (withSuffix suffix.toList (qualified stem))) := by
    apply canonicalize_of_joinWords
    · rw [String.toList_ofList]
      rintro rfl
      cases hJoin
      exact hNonempty rfl
    · rwa [String.toList_ofList]
  refine ⟨_, _, hShort, hBack, ?_⟩
  rw [← String.toList_inj, String.toList_ofList, ← hStem,
    withSuffix_qualified_eq_iff hName.hasNamespace hSuffix hBodyEnds, ← String.toList_inj]
  rfl

theorem canonicalize_shorten_iff_nested_namespaces :
    IsCanonical "Oma\\Kieli\\AsennaKomento" ∧ ¬ HasNamespace "Komento" ∧
    "Komento".toList <:+ "Oma\\Kieli\\AsennaKomento".toList ∧
    ∃ short back, shorten "Oma\\Kieli\\AsennaKomento" "Komento" = .ok short ∧
      canonicalize short "Komento" = .ok back ∧
      (back = "Oma\\Kieli\\AsennaKomento" ↔ ¬ IsNested "Oma\\Kieli\\AsennaKomento" ∧
        ("Komento" = "" ∨
          ¬ "Komento".toList ++ "Komento".toList <:+ "Oma\\Kieli\\AsennaKomento".toList)) := by
  have hName : IsCanonical "Oma\\Kieli\\AsennaKomento" :=
    ⟨[["Oma".toList], ["Kieli".toList], ["Asenna".toList, "Komento".toList]], by decide, by decide,
      by decide⟩
  have hSuffix : ¬ HasNamespace "Komento" := by decide
  have hEnds : "Komento".toList <:+ "Oma\\Kieli\\AsennaKomento".toList := by decide
  exact ⟨hName, hSuffix, hEnds, canonicalize_shorten_iff hName hSuffix hEnds⟩

/-- Both names come back shorter: below the default namespace another namespace takes its place, and
a suffix that is still there is not written again. -/
theorem canonicalize_shorten_ne :
    (IsCanonical "Savoksi\\Oma\\Kieli" ∧ shorten "Savoksi\\Oma\\Kieli" "" = .ok "oma:kieli" ∧
      canonicalize "oma:kieli" "" = .ok "Oma\\Kieli" ∧
      "Oma\\Kieli" ≠ "Savoksi\\Oma\\Kieli") ∧
    IsCanonical "Oma\\KomentoKomento" ∧
      shorten "Oma\\KomentoKomento" "Komento" = .ok "oma:komento" ∧
      canonicalize "oma:komento" "Komento" = .ok "Oma\\Komento" ∧
      "Oma\\Komento" ≠ "Oma\\KomentoKomento" := by
  refine ⟨⟨?_, by rfl, by rfl, by decide⟩, ?_, by rfl, by rfl, by decide⟩
  · exact ⟨[["Savoksi".toList], ["Oma".toList], ["Kieli".toList]], by decide, by decide, by decide⟩
  · exact ⟨[["Oma".toList], ["Komento".toList, "Komento".toList]], by decide, by decide, by decide⟩

end Wiring.Name
