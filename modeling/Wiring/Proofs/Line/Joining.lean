import Mathlib.Data.List.Basic
import Wiring.Line

/-! # Lines as joined words

A line grows word by word, and what is put before a word is decided by the line so far. That comes
to a rule on neighbours: the last character of a word and the first one of the next decide what
stands between the two (`foldl_addWord`). Empty words have no part in it.
-/
namespace Wiring.Line
set_option autoImplicit false

def opening : List Char := [' ', '\r', '\n', '\t', '=', '{', '[', '(', '<', '>']

def closing : List Char :=
  [' ', '\r', '\n', '\t', '=', '}', ']', ')', '<', '>', ';', ':', ',', '.', '!', '?', '%']

/-- What stands between two words that are next to each other. -/
def gap (word next : List Char) : List Char :=
  if word.getLast?.any (· ∈ opening) ∨ next.head?.any (· ∈ closing) then [] else [' ']

def joined : List (List Char) → List Char
  | [] => []
  | [word] => word
  | word :: next :: rest => word ++ gap word next ++ joined (next :: rest)

def shownWords (values : List Value) : List (List Char) :=
  (values.map fun value => value.display.toList).filter (· ≠ [])

/-- How the text of a line is ended: a final `$` is taken away, and a newline is put after any other
text that ends neither in a newline nor in a carriage return. -/
inductive Ends : (text line : List Char) → Prop
  | dropped (text : List Char) : Ends (text ++ ['$']) text
  | kept {text : List Char} : text.getLast? = some '\n' ∨ text.getLast? = some '\r' → Ends text text
  | closed {text : List Char} : (∀ c ∈ text.getLast?, c ∉ ['$', '\n', '\r']) →
    Ends text (text ++ ['\n'])

theorem isOpening_iff {c : Char} : isOpening c = true ↔ c ∈ opening := List.contains_iff_mem

theorem isClosing_iff {c : Char} : isClosing c = true ↔ c ∈ closing := List.contains_iff_mem

theorem addWord_nil (line : List Char) : addWord line [] = line := by
  have hClose : spaced line [] = false := by
    rw [spaced]
    split
    · rename_i hFirst
      cases hFirst
    · rfl
  rw [addWord, hClose, if_neg Bool.false_ne_true, List.append_nil]

theorem addWord_of_ne_nil {line word : List Char} (hLine : line ≠ []) (hWord : word ≠ []) :
    addWord line word = line ++ gap line word ++ word := by
  obtain ⟨last, hLast⟩ := Option.ne_none_iff_exists'.mp (mt List.getLast?_eq_none_iff.mp hLine)
  obtain ⟨first, rest, rfl⟩ := List.exists_cons_of_ne_nil hWord
  have hSpaced : spaced line (first :: rest) = true ↔ ¬(last ∈ opening ∨ first ∈ closing) := by
    simp [spaced, hLast, ← isOpening_iff, ← isClosing_iff]
  have hGap : gap line (first :: rest) =
      if last ∈ opening ∨ first ∈ closing then [] else [' '] := by
    simp [gap, hLast]
  rw [addWord, hGap]
  by_cases hMeet : last ∈ opening ∨ first ∈ closing
  · rw [if_neg (fun h => hSpaced.mp h hMeet), if_pos hMeet, List.append_nil]
  · rw [if_pos (hSpaced.mpr hMeet), if_neg hMeet, List.append_assoc, List.singleton_append]

/-- Only the end of a word decides what follows it. -/
theorem gap_append {word : List Char} (h : word ≠ []) (front next : List Char) :
    gap (front ++ word) next = gap word next := by
  rw [gap, gap, List.getLast?_append_of_ne_nil front h]

theorem joined_append_cons {word : List Char} (h : word ≠ []) (front : List Char)
    (rest : List (List Char)) :
    joined ((front ++ word) :: rest) = front ++ joined (word :: rest) := by
  cases rest with
  | nil => rfl
  | cons next rest => simp only [joined, gap_append h, List.append_assoc]

theorem foldl_addWord_of_ne_nil {words : List (List Char)} (hWords : ∀ word ∈ words, word ≠ [])
    {line : List Char} (hLine : line ≠ []) : words.foldl addWord line = joined (line :: words) := by
  induction words generalizing line with
  | nil => rfl
  | cons word rest ih =>
    obtain ⟨hWord, hRest⟩ := List.forall_mem_cons.mp hWords
    have hLonger : line ++ gap line word ++ word ≠ [] :=
      List.append_ne_nil_of_right_ne_nil _ hWord
    rw [List.foldl_cons, addWord_of_ne_nil hLine hWord, ih hRest hLonger]
    exact joined_append_cons hWord _ rest

theorem foldl_addWord (words : List (List Char)) :
    words.foldl addWord [] = joined (words.filter (· ≠ [])) := by
  have hSkip : addWord = fun line word =>
      if decide (word ≠ []) = true then addWord line word else line := by
    funext line word
    split
    · rfl
    · rename_i hEmpty
      rw [not_not.mp (mt decide_eq_true hEmpty), addWord_nil]
  have hFilter : words.foldl addWord [] = (words.filter (· ≠ [])).foldl addWord [] := by
    rw [List.foldl_filter, ← hSkip]
  rw [hFilter]
  cases hWords : words.filter (· ≠ []) with
  | nil => rfl
  | cons word rest =>
    have hAll : ∀ other ∈ word :: rest, other ≠ [] := by
      intro other hMem
      rw [← hWords] at hMem
      exact of_decide_eq_true (List.mem_filter.mp hMem).2
    obtain ⟨hWord, hRest⟩ := List.forall_mem_cons.mp hAll
    exact foldl_addWord_of_ne_nil hRest hWord

theorem flatten_sublist_joined (words : List (List Char)) :
    words.flatten.Sublist (joined words) := by
  fun_induction joined words with
  | case1 => exact .slnil
  | case2 word => rw [List.flatten_singleton]
  | case3 word next rest ih =>
    rw [List.flatten_cons]
    exact (List.sublist_append_left word _).append ih

theorem ends_iff {text line : List Char} : Ends text line ↔ ended text = line := by
  constructor
  · rintro (_ | hDone | hOpen)
    · rw [ended, List.getLast?_concat]
      exact List.dropLast_concat
    · rw [ended]
      rcases hDone with hDone | hDone <;> rw [hDone] <;> rfl
    · rw [ended]
      split
      · rename_i hLast
        exact absurd (by decide) (hOpen _ hLast)
      · rename_i hLast
        exact absurd (by decide) (hOpen _ hLast)
      · rename_i hLast
        exact absurd (by decide) (hOpen _ hLast)
      · rfl
  · rintro rfl
    rw [ended]
    split
    · rename_i hDollar
      obtain ⟨front, rfl⟩ := List.getLast?_eq_some_iff.mp hDollar
      rw [List.dropLast_concat]
      exact .dropped front
    · rename_i hNewline
      exact .kept (.inl hNewline)
    · rename_i hReturn
      exact .kept (.inr hReturn)
    · rename_i hDollar hNewline hReturn
      refine .closed fun c hLast hMem => ?_
      rcases List.mem_cons.mp hMem with rfl | hMem
      · exact hDollar hLast
      · rcases List.mem_pair.mp hMem with rfl | rfl
        · exact hNewline hLast
        · exact hReturn hLast

theorem Ends.exists_kept {text line chars : List Char} (h : Ends text line)
    (hChars : chars.Sublist text) :
    ∃ kept lost, chars = kept ++ lost ∧ kept.Sublist line ∧ (lost = [] ∨ lost = ['$']) := by
  cases h with
  | dropped =>
    obtain ⟨kept, lost, rfl, hKept, hLost⟩ := List.sublist_append_iff.mp hChars
    exact ⟨kept, lost, rfl, hKept, List.sublist_singleton.mp hLost⟩
  | kept => exact ⟨chars, [], (List.append_nil chars).symm, hChars, .inl rfl⟩
  | closed =>
    have hLine := hChars.trans (List.sublist_append_left text ['\n'])
    exact ⟨chars, [], (List.append_nil chars).symm, hLine, .inl rfl⟩

theorem toList_format (values : List Value) :
    (format values).toList = ended (joined (shownWords values)) := by
  rw [format, String.toList_ofList, foldl_addWord]
  rfl

theorem shownWords_append_blank {blank : Value} (h : blank.display = "") (front back : List Value) :
    shownWords (front ++ blank :: back) = shownWords (front ++ back) := by
  simp [shownWords, h]

/-- A line is made of the display texts that are not empty, each parted from the next by what the
two characters that meet there say, and then ended. So a value without a display text leaves no
trace wherever it stands, and every character of the words is on the line, in order, but for one
final `$`. -/
theorem format_joined (values : List Value) :
    (∀ line, format values = line ↔ Ends (joined (shownWords values)) line.toList) ∧
    (∀ front back blank, values = front ++ back → blank.display = "" →
      format (front ++ blank :: back) = format values) ∧
    ∃ kept lost, (shownWords values).flatten = kept ++ lost ∧
      kept.Sublist (format values).toList ∧ (lost = [] ∨ lost = ['$']) := by
  have hLine (line : String) :
      format values = line ↔ Ends (joined (shownWords values)) line.toList := by
    rw [ends_iff, ← toList_format, String.toList_inj]
  refine ⟨hLine, ?_, ((hLine _).mp rfl).exists_kept (flatten_sublist_joined _)⟩
  rintro front back blank rfl hBlank
  rw [← String.toList_inj, toList_format, toList_format, shownWords_append_blank hBlank]

theorem format_joined_blank :
    (Value.string "").display = "" ∧
      format ([.string "sum", .string "("] ++ .string "" :: [.integer 3, .string ").$"]) =
        "sum (3)." := by
  obtain ⟨hLine, hBlank, _⟩ :=
    format_joined [.string "sum", .string "(", .integer 3, .string ").$"]
  have hWords : shownWords [.string "sum", .string "(", .integer 3, .string ").$"] =
      ["sum".toList, ['('], ['3'], [')', '.', '$']] := by
    decide
  have hFormat : format [.string "sum", .string "(", .integer 3, .string ").$"] = "sum (3)." := by
    rw [hLine, hWords]
    exact .dropped ['s', 'u', 'm', ' ', '(', '3', ')', '.']
  exact ⟨rfl, (hBlank [.string "sum", .string "("] _ _ rfl rfl).trans hFormat⟩

end Wiring.Line
