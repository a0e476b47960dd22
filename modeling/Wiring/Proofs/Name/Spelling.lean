import Wiring.Proofs.Name.Namespace

/-! # Names spelled in words

A word is a letter followed by lower-case letters and digits. Words make up a segment and segments
make up a name. A short name is in lower case, with `-` between words and `:` between segments. A
canonical name has a capital for each word, nothing between words and `\` between segments. Names of
either form are also described letter by letter, as they are read.
-/
namespace Wiring.Name
set_option autoImplicit false

def smallLetters : List Char := "abcdefghijklmnopqrstuvwxyzåäö".toList

def capitalLetters : List Char := "ABCDEFGHIJKLMNOPQRSTUVWXYZÅÄÖ".toList

theorem mem_smallLetters {c : Char} (h : isLower c = true) : c ∈ smallLetters := by
  have hAscii (hLower : c.isLower = true) : c ∈ smallLetters := by
    obtain ⟨hA, hZ⟩ := Bool.and_eq_true_iff.mp hLower
    have hLow : 97 ≤ c.toNat := UInt32.le_iff_toNat_le.mp (of_decide_eq_true hA)
    have hHigh : c.toNat ≤ 122 := UInt32.le_iff_toNat_le.mp (of_decide_eq_true hZ)
    obtain ⟨n, hn, hSum⟩ : ∃ n < 26, c.toNat = 97 + n := ⟨c.toNat - 97, by omega, by omega⟩
    have hAll : ∀ n < 26, Char.ofNat (97 + n) ∈ smallLetters := by decide
    rw [← Char.ofNat_toNat c, hSum]
    exact hAll n hn
  simp only [isLower, Bool.or_eq_true, beq_iff_eq] at h
  rcases h with ((hLower | rfl) | rfl) | rfl
  · exact hAscii hLower
  · decide
  · decide
  · decide

theorem mem_capitalLetters {c : Char} (h : isUpper c = true) : c ∈ capitalLetters := by
  have hAscii (hUpper : c.isUpper = true) : c ∈ capitalLetters := by
    obtain ⟨hA, hZ⟩ : 'A'.val ≤ c.val ∧ c.val ≤ 'Z'.val := of_decide_eq_true hUpper
    have hLow : 65 ≤ c.toNat := UInt32.le_iff_toNat_le.mp hA
    have hHigh : c.toNat ≤ 90 := UInt32.le_iff_toNat_le.mp hZ
    obtain ⟨n, hn, hSum⟩ : ∃ n < 26, c.toNat = 65 + n := ⟨c.toNat - 65, by omega, by omega⟩
    have hAll : ∀ n < 26, Char.ofNat (65 + n) ∈ capitalLetters := by decide
    rw [← Char.ofNat_toNat c, hSum]
    exact hAll n hn
  simp only [isUpper, Bool.or_eq_true, beq_iff_eq] at h
  rcases h with ((hUpper | rfl) | rfl) | rfl
  · exact hAscii hUpper
  · decide
  · decide
  · decide

theorem of_smallLetters {p : Char → Bool} (hAll : smallLetters.all p = true) {c : Char}
    (h : isLower c = true) : p c = true :=
  List.all_eq_true.mp hAll c (mem_smallLetters h)

theorem of_capitalLetters {p : Char → Bool} (hAll : capitalLetters.all p = true) {c : Char}
    (h : isUpper c = true) : p c = true :=
  List.all_eq_true.mp hAll c (mem_capitalLetters h)

theorem small_capital {c : Char} (h : isLower c = true) : small (capital c) = c := by
  have hAll : (smallLetters.all fun c => small (capital c) == c) = true := by decide
  exact eq_of_beq (of_smallLetters hAll h)

theorem isUpper_capital {c : Char} (h : isLower c = true) : isUpper (capital c) = true := by
  have hAll : (smallLetters.all fun c => isUpper (capital c)) = true := by decide
  exact of_smallLetters hAll h

theorem capital_small {c : Char} (h : isUpper c = true) : capital (small c) = c := by
  have hAll : (capitalLetters.all fun c => capital (small c) == c) = true := by decide
  exact eq_of_beq (of_capitalLetters hAll h)

theorem isLower_small {c : Char} (h : isUpper c = true) : isLower (small c) = true := by
  have hAll : (capitalLetters.all fun c => isLower (small c)) = true := by decide
  exact of_capitalLetters hAll h

def isTail (c : Char) : Bool := isLower c || c.isDigit

theorem isWordChar_of_isTail {c : Char} (h : isTail c = true) : isWordChar c = true := by
  rw [isWordChar_iff]
  rcases Bool.or_eq_true_iff.mp h with hLower | hDigit
  · exact .inl hLower
  · exact .inr (.inr hDigit)

theorem isUpper_of_isTail {c : Char} (h : isTail c = true) : isUpper c = false := by
  rcases Bool.or_eq_true_iff.mp h with hLower | hDigit
  · have hAll : (smallLetters.all fun c => isUpper c == false) = true := by decide
    exact eq_of_beq (of_smallLetters hAll hLower)
  · cases hUpper : isUpper c with
    | false => rfl
    | true =>
      have hAll : (capitalLetters.all fun c => c.isDigit == false) = true := by decide
      rw [eq_of_beq (of_capitalLetters hAll hUpper)] at hDigit
      cases hDigit

theorem isNamespaceMark_of_isWordChar {c : Char} (h : isWordChar c = true) :
    isNamespaceMark c = false := by
  cases hMark : isNamespaceMark c with
  | false => rfl
  | true =>
    rcases (isNamespaceMark_iff c).mp hMark with rfl | rfl
    · exact absurd h (by decide)
    · exact absurd h (by decide)

theorem isJoiner_of_isWordChar {c : Char} (h : isWordChar c = true) : isJoiner c = false := by
  cases hJoiner : isJoiner c with
  | false => rfl
  | true =>
    rcases (isJoiner_iff c).mp hJoiner with rfl | rfl
    · exact absurd h (by decide)
    · exact absurd h (by decide)

theorem isWordChar_of_isUpper {c : Char} (h : isUpper c = true) : isWordChar c = true := by
  rw [isWordChar_iff]
  exact .inr (.inl h)

theorem ne_separator_of_isWordChar {c : Char} (h : isWordChar c = true) : c ≠ separator := by
  rintro rfl
  exact absurd h (by decide)

def isWord (starts : Char → Bool) : List Char → Bool
  | [] => false
  | first :: tail => starts first && tail.all isTail

def isSegment (starts : Char → Bool) (words : List (List Char)) : Bool :=
  !words.isEmpty && words.all (isWord starts)

/-- The text of segments, with what stands between words and between segments. -/
def spell (joiner mark : List Char) (segments : List (List (List Char))) : List Char :=
  mark.intercalate (segments.map joiner.intercalate)

def IsShort (name : String) : Prop :=
  ∃ segments, segments ≠ [] ∧ (∀ words ∈ segments, isSegment isLower words = true) ∧
    name.toList = spell ['-'] [':'] segments

/-- A canonical name has a namespace. -/
def IsCanonical (name : String) : Prop :=
  ∃ segments, 2 ≤ segments.length ∧ (∀ words ∈ segments, isSegment isUpper words = true) ∧
    name.toList = spell [] [separator] segments

/-- What holds of a text that follows an item or that a mark is put before holds of all items with
marks between them. -/
theorem intercalate_append {before within : List Char → Prop} {mark : List Char}
    {items : List (List Char)} (hNonempty : items ≠ [])
    (hItem : ∀ item ∈ items, ∀ rest, within rest → before (item ++ rest))
    (hMark : ∀ rest, before rest → within (mark ++ rest)) {rest : List Char}
    (hRest : within rest) : before (mark.intercalate items ++ rest) := by
  induction items with
  | nil => exact absurd rfl hNonempty
  | cons item others ih =>
    have hHere := hItem item List.mem_cons_self
    cases others with
    | nil =>
      rw [List.intercalate_singleton]
      exact hHere rest hRest
    | cons next more =>
      rw [List.intercalate_cons_cons, List.append_assoc, List.append_assoc]
      have hMore := ih (List.cons_ne_nil next more) fun item hMem =>
        hItem item (List.mem_cons_of_mem _ hMem)
      exact hHere _ (hMark _ hMore)

theorem spell_of_letters (before within : List Char → Prop) {starts : Char → Bool}
    {joiner mark : List Char} {segments : List (List (List Char))} (hNonempty : segments ≠ [])
    (hSegments : ∀ words ∈ segments, isSegment starts words = true)
    (hFirst : ∀ c rest, starts c = true → within rest → before (c :: rest))
    (hTail : ∀ c rest, isTail c = true → within rest → within (c :: rest))
    (hJoiner : ∀ rest, before rest → within (joiner ++ rest))
    (hMark : ∀ rest, before rest → within (mark ++ rest)) (hNil : within []) :
    before (spell joiner mark segments) := by
  have hTails (tail rest : List Char) (h : tail.all isTail = true) (hRest : within rest) :
      within (tail ++ rest) := by
    induction tail with
    | nil => exact hRest
    | cons c tail ih =>
      obtain ⟨hHead, hMore⟩ := Bool.and_eq_true_iff.mp h
      exact hTail c _ hHead (ih hMore)
  have hWord (word : List Char) (h : isWord starts word = true) (rest : List Char)
      (hRest : within rest) : before (word ++ rest) := by
    cases word with
    | nil => cases h
    | cons first tail =>
      obtain ⟨hStarts, hOthers⟩ := Bool.and_eq_true_iff.mp h
      exact hFirst first _ hStarts (hTails tail rest hOthers hRest)
  have hItems : ∀ item ∈ segments.map joiner.intercalate, ∀ rest, within rest →
      before (item ++ rest) := by
    intro item hItem rest hRest
    obtain ⟨words, hWords, rfl⟩ := List.mem_map.mp hItem
    obtain ⟨hSome, hAll⟩ := Bool.and_eq_true_iff.mp (hSegments words hWords)
    refine intercalate_append (by simpa using hSome) (fun word hMem => ?_) hJoiner hRest
    exact hWord word (List.all_eq_true.mp hAll word hMem)
  have hSome : segments.map joiner.intercalate ≠ [] := by simpa using hNonempty
  have hAll := intercalate_append hSome hItems hMark hNil
  rwa [List.append_nil] at hAll

/-- The text of a short name from within a word, or from the start of one if it is `fresh`. -/
inductive ShortText : (fresh : Bool) → List Char → Prop
  | nil : ShortText false []
  | letter {c : Char} {rest : List Char} : isLower c = true → ShortText false rest →
    ShortText true (c :: rest)
  | tail {c : Char} {rest : List Char} : isTail c = true → ShortText false rest →
    ShortText false (c :: rest)
  | joiner {rest : List Char} : ShortText true rest → ShortText false ('-' :: rest)
  | mark {rest : List Char} : ShortText true rest → ShortText false (':' :: rest)

/-- The text of a canonical name from within a word or from elsewhere, up to any place. -/
inductive CanonicalText : (inWord : Bool) → List Char → Prop
  | nil {inWord : Bool} : CanonicalText inWord []
  | letter {inWord : Bool} {c : Char} {rest : List Char} : isUpper c = true →
    CanonicalText true rest → CanonicalText inWord (c :: rest)
  | tail {c : Char} {rest : List Char} : isTail c = true → CanonicalText true rest →
    CanonicalText true (c :: rest)
  | mark {inWord : Bool} {rest : List Char} : CanonicalText false rest →
    CanonicalText inWord (separator :: rest)

theorem IsShort.shortText {name : String} (h : IsShort name) : ShortText true name.toList := by
  obtain ⟨segments, hNonempty, hSegments, hName⟩ := h
  rw [hName]
  exact spell_of_letters (ShortText true) (ShortText false) hNonempty hSegments
    (fun _ _ => .letter) (fun _ _ => .tail) (fun _ => .joiner) (fun _ => .mark) .nil

theorem canonicalText_spell {segments : List (List (List Char))} (hNonempty : segments ≠ [])
    (hSegments : ∀ words ∈ segments, isSegment isUpper words = true) :
    CanonicalText false (spell [] [separator] segments) := by
  have hAny : ∀ inWord, CanonicalText inWord (spell [] [separator] segments) := by
    apply spell_of_letters (fun text => ∀ inWord, CanonicalText inWord text) (CanonicalText true)
      hNonempty hSegments
    · exact fun _ _ hUpper hRest _ => .letter hUpper hRest
    · exact fun _ _ => .tail
    · exact fun _ hRest => hRest true
    · exact fun _ hRest => .mark (hRest false)
    · exact .nil
  exact hAny false

theorem IsCanonical.canonicalText {name : String} (h : IsCanonical name) :
    CanonicalText false name.toList := by
  obtain ⟨segments, hLength, hSegments, hName⟩ := h
  have hNonempty : segments ≠ [] := List.ne_nil_of_length_pos (by omega)
  rw [hName]
  exact canonicalText_spell hNonempty hSegments

theorem IsCanonical.hasNamespace {name : String} (h : IsCanonical name) : HasNamespace name := by
  obtain ⟨segments, hLength, _, hName⟩ := h
  match segments with
  | first :: second :: others =>
    rw [HasNamespace, hName, spell, List.map_cons, List.map_cons, List.intercalate_cons_cons]
    simp

theorem getLast?_cons_ne {c last : Char} {text : List Char} (hHead : c ≠ last)
    (hRest : text.getLast? ≠ some last) : (c :: text).getLast? ≠ some last := by
  cases text with
  | nil => simpa using hHead
  | cons next rest => rwa [List.getLast?_cons_cons]

theorem IsCanonical.getLast?_ne {name : String} (h : IsCanonical name) :
    name.toList.getLast? ≠ some separator := by
  obtain ⟨segments, hLength, hSegments, hName⟩ := h
  have hNonempty : segments ≠ [] := List.ne_nil_of_length_pos (by omega)
  let within (text : List Char) : Prop := text.getLast? ≠ some separator
  have hText : spell [] [separator] segments ≠ [] ∧ within (spell [] [separator] segments) := by
    apply spell_of_letters (fun text => text ≠ [] ∧ within text) within hNonempty hSegments
    · intro c rest hUpper hRest
      have hHead := ne_separator_of_isWordChar (isWordChar_of_isUpper hUpper)
      exact ⟨List.cons_ne_nil c rest, getLast?_cons_ne hHead hRest⟩
    · intro c rest hTail hRest
      exact getLast?_cons_ne (ne_separator_of_isWordChar (isWordChar_of_isTail hTail)) hRest
    · exact fun rest hRest => hRest.2
    · rintro rest ⟨hSome, hRest⟩
      obtain ⟨next, more, rfl⟩ := List.exists_cons_of_ne_nil hSome
      exact hRest
    · exact nofun
  rw [hName]
  exact hText.2

theorem CanonicalText.of_isPrefix {inWord : Bool} {text stem : List Char}
    (h : CanonicalText inWord text) (hStem : stem <+: text) : CanonicalText inWord stem := by
  induction h generalizing stem with
  | nil =>
    rw [List.prefix_nil.mp hStem]
    exact .nil
  | letter hUpper _ ih =>
    rcases List.prefix_cons_iff.mp hStem with rfl | ⟨rest, rfl, hRest⟩
    · exact .nil
    · exact .letter hUpper (ih hRest)
  | tail hTail _ ih =>
    rcases List.prefix_cons_iff.mp hStem with rfl | ⟨rest, rfl, hRest⟩
    · exact .nil
    · exact .tail hTail (ih hRest)
  | mark _ ih =>
    rcases List.prefix_cons_iff.mp hStem with rfl | ⟨rest, rfl, hRest⟩
    · exact .nil
    · exact .mark (ih hRest)

theorem CanonicalText.of_append_separator {inWord : Bool} {start rest : List Char}
    (h : CanonicalText inWord (start ++ separator :: rest)) : CanonicalText false rest := by
  induction start generalizing inWord with
  | nil =>
    cases h with
    | letter hUpper _ => exact absurd hUpper (by decide)
    | tail hTail _ => exact absurd hTail (by decide)
    | mark hRest => exact hRest
  | cons c start ih =>
    cases h with
    | letter _ hRest => exact ih hRest
    | tail _ hRest => exact ih hRest
    | mark hRest => exact ih hRest

end Wiring.Name
