import Wiring.Proofs.Name.Accepted
import Wiring.Proofs.Value.Position

/-! # Canonical names, segment by segment

The canonical form of a name is put together from its segments, which stand between namespace marks,
and from their parts, which stand between joiners. Just the names made of letters, digits and these
characters have one (`canonicalize_form`).
-/
namespace Wiring.Name
set_option autoImplicit false

def nameAlphabet : List Char := smallLetters ++ capitalLetters ++ "0123456789:\\-_".toList

def InAlphabet (name : String) : Prop := name ≠ "" ∧ ∀ c ∈ name.toList, c ∈ nameAlphabet

/-- The capital of a small letter. Any other character is its own. -/
def capitalOf (c : Char) : Char := ((smallLetters.zip capitalLetters).lookup c).getD c

def capitalized : List Char → List Char
  | [] => []
  | first :: rest => capitalOf first :: rest

def parts (segment : List Char) : List (List Char) := segment.splitOnP (· ∈ ['-', '_'])

def segments (name : List Char) : List (List Char) := name.splitOnP (· ∈ [':', '\\'])

def joined (segment : List Char) : List Char := (parts segment).flatMap capitalized

/-- The canonical form of a name, with the default namespace if it has none and with the suffix
unless it ends with it. -/
def canonicalForm (name suffix : String) : String :=
  let text := String.ofList (['\\'].intercalate ((segments name.toList).map joined))
  let long := if ':' ∈ name.toList ∨ '\\' ∈ name.toList then text else "Savoksi\\" ++ text
  if suffix ≠ "" ∧ ¬ suffix.toList <:+ long.toList then long ++ suffix else long

theorem isNameChar_iff (c : Char) : isNameChar c = true ↔ c ∈ nameAlphabet := by
  constructor
  · intro h
    rw [isNameChar, Bool.or_eq_true, Bool.or_eq_true, isWordChar_iff, isNamespaceMark_iff,
      isJoiner_iff] at h
    rw [nameAlphabet, List.mem_append, List.mem_append]
    rcases h with ((hLower | hUpper | hDigit) | rfl | rfl) | rfl | rfl
    · exact .inl (.inl (mem_smallLetters hLower))
    · exact .inl (.inr (mem_capitalLetters hUpper))
    · obtain ⟨hSmall, hChar⟩ := Position.digitChar_of_isDigit hDigit
      have hAll : ∀ n < 10, n.digitChar ∈ "0123456789:\\-_".toList := by decide
      rw [← hChar]
      exact .inr (hAll _ hSmall)
    all_goals exact .inr (by decide)
  · have hAll : nameAlphabet.all isNameChar = true := by decide
    exact List.all_eq_true.mp hAll c

theorem capitalOf_eq (c : Char) : capitalOf c = capital c := by
  cases hLower : isLower c with
  | true =>
    have hAll : (smallLetters.all fun c => capitalOf c == capital c) = true := by decide
    exact eq_of_beq (of_smallLetters hAll hLower)
  | false =>
    have hNone : (smallLetters.zip capitalLetters).lookup c = none := by
      have hAll : ((smallLetters.zip capitalLetters).all fun pair => isLower pair.1) = true := by
        decide
      refine List.lookup_eq_none_iff.mpr fun pair hMem => bne_iff_ne.mpr ?_
      rintro rfl
      exact Bool.false_ne_true (hLower.symm.trans (List.all_eq_true.mp hAll pair hMem))
    rw [capitalOf, hNone, capital_of_not_isLower hLower]
    rfl

theorem decide_mem_joiners (c : Char) : decide (c ∈ ['-', '_']) = isJoiner c := by
  rw [Bool.eq_iff_iff, isJoiner_iff]
  simp

theorem decide_mem_marks (c : Char) : decide (c ∈ [':', '\\']) = isNamespaceMark c := by
  rw [Bool.eq_iff_iff, isNamespaceMark_iff]
  simp [separator]

section Splitting

variable {p : Char → Bool} {c : Char} {rest : List Char}

theorem splitOnP_cons_of_pos (h : p c = true) :
    (c :: rest).splitOnP p = [] :: rest.splitOnP p := by
  rw [List.splitOnP_cons_eq_if_modifyHead, if_pos h]

theorem splitOnP_cons_of_neg (h : p c = false) :
    ∃ first others, rest.splitOnP p = first :: others ∧
      (c :: rest).splitOnP p = (c :: first) :: others := by
  obtain ⟨first, others, hSplit⟩ := List.exists_cons_of_ne_nil (List.splitOnP_ne_nil p rest)
  refine ⟨first, others, hSplit, ?_⟩
  rw [List.splitOnP_cons_eq_if_modifyHead, if_neg (Bool.eq_false_iff.mp h), hSplit,
    List.modifyHead_cons]

theorem parts_cons_of_isJoiner (h : isJoiner c = true) : parts (c :: rest) = [] :: parts rest :=
  splitOnP_cons_of_pos (p := (· ∈ ['-', '_'])) ((decide_mem_joiners c).trans h)

theorem parts_cons_of_isWordChar (rest : List Char) (h : isWordChar c = true) :
    ∃ first others, parts rest = first :: others ∧ parts (c :: rest) = (c :: first) :: others :=
  splitOnP_cons_of_neg (p := (· ∈ ['-', '_']))
    ((decide_mem_joiners c).trans (isJoiner_of_isWordChar h))

theorem segments_cons_of_isNamespaceMark (h : isNamespaceMark c = true) :
    segments (c :: rest) = [] :: segments rest :=
  splitOnP_cons_of_pos (p := (· ∈ [':', '\\'])) ((decide_mem_marks c).trans h)

theorem segments_cons_of_not_isNamespaceMark (rest : List Char) (h : isNamespaceMark c = false) :
    ∃ first others, segments rest = first :: others ∧
      segments (c :: rest) = (c :: first) :: others :=
  splitOnP_cons_of_neg (p := (· ∈ [':', '\\'])) ((decide_mem_marks c).trans h)

end Splitting

/-- Parts joined, of which the first one goes on a word unless it is `fresh`. -/
def joinedFrom (fresh : Bool) : List (List Char) → List Char
  | [] => []
  | first :: others => (if fresh then capitalized first else first) ++ others.flatMap capitalized

def segmentsFrom (fresh : Bool) : List (List Char) → List Char
  | [] => []
  | first :: others => ['\\'].intercalate (joinedFrom fresh (parts first) :: others.map joined)

section Joining

variable {fresh : Bool} {c : Char} {rest text : List Char}

theorem joinedFrom_parts (segment : List Char) : joinedFrom true (parts segment) = joined segment := by
  rw [joined]
  cases parts segment <;> rfl

theorem segmentsFrom_segments (name : List Char) :
    segmentsFrom true (segments name) = ['\\'].intercalate ((segments name).map joined) := by
  cases segments name with
  | nil => rfl
  | cons first others => rw [segmentsFrom, joinedFrom_parts, List.map_cons]

theorem joinedFrom_of_isJoiner (h : isJoiner c = true) :
    joinedFrom fresh (parts (c :: rest)) = joined rest := by
  rw [parts_cons_of_isJoiner h]
  cases fresh <;> rfl

theorem joinedFrom_of_isWordChar (h : isWordChar c = true) :
    joinedFrom fresh (parts (c :: rest)) =
      (if fresh then capital c else c) :: joinedFrom false (parts rest) := by
  obtain ⟨first, others, hRest, hParts⟩ := parts_cons_of_isWordChar rest h
  rw [hParts, hRest, ← capitalOf_eq]
  cases fresh <;> rfl

theorem segmentsFrom_of_isNamespaceMark (h : isNamespaceMark c = true) :
    segmentsFrom fresh (segments (c :: rest)) = separator :: segmentsFrom true (segments rest) := by
  have hSome : segments rest ≠ [] := List.splitOnP_ne_nil _ rest
  obtain ⟨first, others, hRest⟩ := List.exists_cons_of_ne_nil hSome
  rw [segmentsFrom_segments, segments_cons_of_isNamespaceMark h, hRest, segmentsFrom, List.map_cons,
    List.intercalate_cons_cons]
  cases fresh <;> rfl

theorem segmentsFrom_of_isJoiner (h : isJoiner c = true) :
    segmentsFrom fresh (segments (c :: rest)) = segmentsFrom true (segments rest) := by
  obtain ⟨first, others, hRest, hSegments⟩ :=
    segments_cons_of_not_isNamespaceMark rest (isNamespaceMark_of_isJoiner h)
  rw [hSegments, hRest, segmentsFrom, segmentsFrom, joinedFrom_of_isJoiner h, joinedFrom_parts]

theorem segmentsFrom_of_isWordChar (h : isWordChar c = true) :
    segmentsFrom fresh (segments (c :: rest)) =
      (if fresh then capital c else c) :: segmentsFrom false (segments rest) := by
  obtain ⟨first, others, hRest, hSegments⟩ :=
    segments_cons_of_not_isNamespaceMark rest (isNamespaceMark_of_isWordChar h)
  rw [hSegments, hRest, segmentsFrom, segmentsFrom, joinedFrom_of_isWordChar h]
  cases others with
  | nil => rw [List.map_nil, List.intercalate_singleton, List.intercalate_singleton]
  | cons next more =>
    rw [List.map_cons, List.intercalate_cons_cons, List.intercalate_cons_cons, List.cons_append,
      List.cons_append]

theorem joins_segmentsFrom (fresh : Bool) (h : ∀ c ∈ text, isNameChar c = true) :
    Joins fresh text (segmentsFrom fresh (segments text)) := by
  induction text generalizing fresh with
  | nil => cases fresh <;> exact .nil
  | cons c rest ih =>
    obtain ⟨hHere, hRest⟩ := List.forall_mem_cons.mp h
    rw [isNameChar, Bool.or_eq_true, Bool.or_eq_true] at hHere
    rcases hHere with (hWord | hMark) | hJoiner
    · rw [segmentsFrom_of_isWordChar hWord]
      exact .word hWord (ih false hRest)
    · rw [segmentsFrom_of_isNamespaceMark hMark]
      exact .mark hMark (ih true hRest)
    · rw [segmentsFrom_of_isJoiner hJoiner]
      exact .joiner hJoiner (ih true hRest)

theorem Joins.separator_mem_iff {result : List Char} (h : Joins fresh text result) :
    separator ∈ result ↔ ∃ c ∈ text, isNamespaceMark c = true := by
  induction h with
  | nil => simp
  | @word fresh c rest result hWord _ ih =>
    have hHead := ne_separator_of_isWordChar (isWordChar_ite_capital fresh hWord)
    rw [List.mem_cons, or_iff_right hHead.symm, ih]
    simp [isNamespaceMark_of_isWordChar hWord]
  | mark hMark => simp [hMark]
  | joiner hJoiner _ ih =>
    rw [ih]
    simp [isNamespaceMark_of_isJoiner hJoiner]

theorem exists_isNamespaceMark_iff (text : List Char) :
    (∃ c ∈ text, isNamespaceMark c = true) ↔ ':' ∈ text ∨ '\\' ∈ text := by
  simp only [isNamespaceMark_iff, separator]
  constructor
  · rintro ⟨c, hMem, rfl | rfl⟩
    · exact .inl hMem
    · exact .inr hMem
  · rintro (hMem | hMem)
    · exact ⟨':', hMem, .inl rfl⟩
    · exact ⟨'\\', hMem, .inr rfl⟩

end Joining

theorem canonicalForm_eq {name : String} (h : ∀ c ∈ name.toList, isNameChar c = true)
    (suffix : String) :
    canonicalForm name suffix = String.ofList (withSuffix suffix.toList (qualified
      (segmentsFrom true (segments name.toList)))) := by
  have hMem := ((joins_segmentsFrom true h).separator_mem_iff).trans (exists_isNamespaceMark_iff _)
  rw [canonicalForm, ← segmentsFrom_segments]
  generalize segmentsFrom true (segments name.toList) = text at hMem ⊢
  have hLong : (if ':' ∈ name.toList ∨ '\\' ∈ name.toList then String.ofList text
      else "Savoksi\\" ++ String.ofList text) = String.ofList (qualified text) := by
    split
    · rename_i hMark
      rw [qualified_of_mem (hMem.mpr hMark)]
    · rename_i hMark
      rw [qualified_of_not_mem (mt hMem.mp hMark), String.ofList_append]
      rfl
  simp only [hLong, String.toList_ofList]
  by_cases hEnds : suffix.toList <:+ qualified text
  · rw [withSuffix_of_suffix hEnds, if_neg fun hAppend => hAppend.2 hEnds]
  · have hSome : suffix ≠ "" := by
      rintro rfl
      exact hEnds List.nil_suffix
    rw [withSuffix_of_not_suffix hEnds, if_pos ⟨hSome, hEnds⟩, String.ofList_append,
      String.ofList_toList]

theorem canonicalize_of_inAlphabet {name : String} (h : InAlphabet name) (suffix : String) :
    canonicalize name suffix = .ok (canonicalForm name suffix) := by
  obtain ⟨hSome, hAlphabet⟩ := h
  have hChars : ∀ c ∈ name.toList, isNameChar c = true := fun c hMem =>
    (isNameChar_iff c).mpr (hAlphabet c hMem)
  have hJoined := joinWords_eq_some_iff.mpr (joins_segmentsFrom true hChars)
  rw [canonicalize_of_joinWords (mt String.toList_eq_nil_iff.mp hSome) hJoined,
    canonicalForm_eq hChars]

theorem inAlphabet_of_canonicalize {name suffix long : String}
    (h : canonicalize name suffix = .ok long) : InAlphabet name := by
  obtain ⟨hSome, joined, hJoins, _⟩ := joins_of_canonicalize h
  exact ⟨mt String.toList_eq_nil_iff.mpr hSome, fun c hMem =>
    (isNameChar_iff c).mp (hJoins.isNameChar c hMem)⟩

/-- Just the names in the alphabet have a canonical form, and it is made of their segments and of
the parts of these. -/
theorem canonicalize_form (name suffix : String) :
    (∀ long, canonicalize name suffix = .ok long ↔
      InAlphabet name ∧ long = canonicalForm name suffix) ∧
    ∀ failure, canonicalize name suffix = .error failure ↔
      ¬ InAlphabet name ∧ failure = .invalidName name := by
  by_cases hName : InAlphabet name
  · rw [canonicalize_of_inAlphabet hName]
    constructor
    · intro long
      rw [Except.ok.injEq, eq_comm]
      exact (and_iff_right hName).symm
    · intro failure
      refine ⟨fun hSame => ?_, fun h => absurd hName h.1⟩
      cases hSame
  · have hFails : canonicalize name suffix = .error (.invalidName name) := by
      cases hLong : canonical? name suffix with
      | none =>
        rw [canonicalize, hLong]
        rfl
      | some long =>
        exact absurd (inAlphabet_of_canonicalize ((canonicalize_eq_ok_iff _ _ _).mpr hLong)) hName
    rw [hFails]
    constructor
    · intro long
      refine ⟨fun hSame => ?_, fun h => absurd h.1 hName⟩
      cases hSame
    · intro failure
      rw [Except.error.injEq, eq_comm]
      exact (and_iff_right hName).symm

end Wiring.Name
