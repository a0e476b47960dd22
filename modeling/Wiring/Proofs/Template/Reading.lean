import Wiring.Template

/-! # How templates are read

A placeholder is a run of placeholder characters, of at most 79 bytes, between braces. No run holds
a brace, so that placeholders never overlap: every template is read in exactly one way in which no
brace that stands for itself opens a placeholder (`existsUnique_reads`), and this is how it is
scanned (`pieces_of_reads`).
-/
namespace Wiring.Template
set_option autoImplicit false

/-- A character that stands for itself, or a placeholder with what is between its braces. -/
inductive Mark where
  | plain (c : Char)
  | hole (run : List Char)

def Mark.spelling : Mark → List Char
  | plain c => [c]
  | hole run => '{' :: (run ++ ['}'])

def spelling (marks : List Mark) : List Char := marks.flatMap Mark.spelling

structure IsRun (run : List Char) : Prop where
  chars : ∀ c ∈ run, isPlaceholderChar c = true
  bytes : (String.ofList run).utf8ByteSize ≤ maxPlaceholder

/-- The text goes on as a placeholder does after its opening brace. -/
def Closes (text : List Char) : Prop := ∃ run rest, text = run ++ '}' :: rest ∧ IsRun run

/-- The marks spell the text, holes are runs, and no brace that stands for itself is the opening
brace of a placeholder. -/
structure Reads (text : List Char) (marks : List Mark) : Prop where
  spelled : spelling marks = text
  runs (run : List Char) : .hole run ∈ marks → IsRun run
  braces (before after : List Mark) : marks = before ++ .plain '{' :: after →
    ¬ Closes (spelling after)

theorem utf8Size_of_isPlaceholderChar {c : Char} (h : isPlaceholderChar c = true) :
    c.utf8Size = 1 := by
  rw [Char.utf8Size_eq_one_iff]
  simp only [isPlaceholderChar, Char.isAlphanum, Bool.or_eq_true, beq_iff_eq] at h
  rcases h with (((((hLetter | hDigit) | rfl) | rfl) | rfl) | rfl) | rfl
  · rcases Bool.or_eq_true_iff.mp hLetter with hUpper | hLower
    · exact UInt32.le_trans (of_decide_eq_true hUpper).2 (by decide)
    · exact UInt32.le_trans (of_decide_eq_true (Bool.and_eq_true_iff.mp hLower).2) (by decide)
  · exact UInt32.le_trans (of_decide_eq_true (Bool.and_eq_true_iff.mp hDigit).2) (by decide)
  all_goals decide

theorem utf8ByteSize_of_isPlaceholderChar {run : List Char}
    (h : ∀ c ∈ run, isPlaceholderChar c = true) :
    (String.ofList run).utf8ByteSize = run.length := by
  induction run with
  | nil => rfl
  | cons c rest ih =>
    obtain ⟨hHere, hRest⟩ := List.forall_mem_cons.mp h
    rw [String.ofList_cons, String.utf8ByteSize_append, String.utf8ByteSize_singleton, ih hRest,
      utf8Size_of_isPlaceholderChar hHere, List.length_cons, Nat.add_comm]

theorem isRun_iff {run : List Char} :
    IsRun run ↔ (∀ c ∈ run, isPlaceholderChar c = true) ∧ run.length ≤ maxPlaceholder := by
  constructor
  · rintro ⟨hChars, hBytes⟩
    rw [utf8ByteSize_of_isPlaceholderChar hChars] at hBytes
    exact ⟨hChars, hBytes⟩
  · rintro ⟨hChars, hLength⟩
    exact ⟨hChars, by rwa [utf8ByteSize_of_isPlaceholderChar hChars]⟩

theorem placeholder?_eq_some_iff {text run rest : List Char} :
    placeholder? text = some (run, rest) ↔ text = run ++ '}' :: rest ∧ IsRun run := by
  rw [isRun_iff]
  constructor
  · intro h
    rw [placeholder?] at h
    split at h
    · rename_i c after hAfter
      dsimp only at h
      split at h
      · rename_i hFits
        cases h
        obtain ⟨rfl, hLength⟩ := hFits
        refine ⟨?_, List.all_eq_true.mp List.all_takeWhile, hLength⟩
        rw [← hAfter, List.takeWhile_append_dropWhile]
      · cases h
    · cases h
  · rintro ⟨rfl, hChars, hLength⟩
    have hClosing : isPlaceholderChar '}' = false := by decide
    simp only [placeholder?, List.dropWhile_append_of_pos hChars,
      List.takeWhile_append_of_pos hChars, List.dropWhile_cons, List.takeWhile_cons, hClosing,
      Bool.false_eq_true, if_false, List.append_nil, true_and, hLength, if_true]

theorem closes_iff {text : List Char} : Closes text ↔ placeholder? text ≠ none := by
  rw [Option.ne_none_iff_exists', Prod.exists]
  simp only [placeholder?_eq_some_iff, Closes]

theorem spelling_hole_append (run rest : List Char) :
    (Mark.hole run).spelling ++ rest = '{' :: (run ++ '}' :: rest) := by
  rw [Mark.spelling, List.cons_append, List.append_assoc]
  rfl

section Marks

variable {text : List Char} {marks : List Mark}

theorem reads_nil_iff : Reads text [] ↔ text = [] := by
  constructor
  · exact fun h => h.spelled.symm
  · rintro rfl
    refine ⟨rfl, nofun, fun before after h => ?_⟩
    exact absurd h.symm (List.append_ne_nil_of_right_ne_nil before (List.cons_ne_nil _ after))

theorem reads_cons_iff {mark : Mark} :
    Reads text (mark :: marks) ↔ ∃ rest, text = mark.spelling ++ rest ∧ Reads rest marks ∧
      (∀ run, mark = .hole run → IsRun run) ∧ (mark = .plain '{' → ¬ Closes rest) := by
  constructor
  · rintro ⟨rfl, hRuns, hBraces⟩
    refine ⟨spelling marks, rfl, ⟨rfl, ?_, ?_⟩, ?_, ?_⟩
    · exact fun run hMem => hRuns run (List.mem_cons_of_mem mark hMem)
    · rintro before after rfl
      exact hBraces (mark :: before) after rfl
    · rintro run rfl
      exact hRuns run List.mem_cons_self
    · rintro rfl
      exact hBraces [] marks rfl
  · rintro ⟨rest, rfl, ⟨rfl, hRuns, hBraces⟩, hHole, hBrace⟩
    refine ⟨rfl, fun run hMem => ?_, fun before after h => ?_⟩
    · rcases List.mem_cons.mp hMem with hHere | hRest
      · exact hHole run hHere.symm
      · exact hRuns run hRest
    · cases before with
      | nil =>
        cases h
        exact hBrace rfl
      | cons first more =>
        cases h
        exact hBraces more after rfl

end Marks

theorem pieces_cons_of_ne {c : Char} (h : c ≠ '{') (rest : List Char) :
    pieces (c :: rest) = .literal c :: pieces rest := by
  rw [pieces, if_neg h]

theorem pieces_of_closes {run after : List Char} (h : IsRun run) :
    pieces ('{' :: (run ++ '}' :: after)) = .placeholder (target run) :: pieces after := by
  have hFound := placeholder?_eq_some_iff.mpr ⟨(rfl : run ++ '}' :: after = _), h⟩
  rw [pieces, if_pos rfl]
  split
  · rename_i other rest hOther
    cases hFound.symm.trans hOther
    rfl
  · rename_i hNone
    cases hFound.symm.trans hNone

theorem pieces_of_not_closes {rest : List Char} (h : ¬ Closes rest) :
    pieces ('{' :: rest) = .literal '{' :: pieces rest := by
  have hNone : placeholder? rest = none := Classical.not_not.mp fun hSome => h (closes_iff.mpr hSome)
  rw [pieces, if_pos rfl]
  split
  · rename_i hOther
    cases hNone.symm.trans hOther
  · rfl

def Mark.piece : Mark → Piece
  | plain c => .literal c
  | hole run => .placeholder (target run)

section Scanned

variable {text : List Char} {marks : List Mark}

theorem pieces_of_reads (h : Reads text marks) : pieces text = marks.map Mark.piece := by
  induction marks generalizing text with
  | nil =>
    rw [reads_nil_iff.mp h, pieces]
    rfl
  | cons mark marks ih =>
    obtain ⟨rest, rfl, hRest, hHole, hBrace⟩ := reads_cons_iff.mp h
    rw [List.map_cons, ← ih hRest]
    cases mark with
    | plain c =>
      by_cases hOpening : c = '{'
      · subst hOpening
        exact pieces_of_not_closes (hBrace rfl)
      · exact pieces_cons_of_ne hOpening rest
    | hole run =>
      rw [spelling_hole_append]
      exact pieces_of_closes (hHole run rfl)

theorem exists_reads (text : List Char) : ∃ marks, Reads text marks := by
  induction text using pieces.induct with
  | case1 => exact ⟨[], reads_nil_iff.mpr rfl⟩
  | case2 rest run after hFound ih =>
    obtain ⟨marks, hMarks⟩ := ih
    obtain ⟨rfl, hRun⟩ := placeholder?_eq_some_iff.mp hFound
    refine ⟨.hole run :: marks, reads_cons_iff.mpr ⟨after, ?_, hMarks, ?_, nofun⟩⟩
    · exact (spelling_hole_append run after).symm
    · rintro _ ⟨⟩
      exact hRun
  | case3 rest hNone ih =>
    obtain ⟨marks, hMarks⟩ := ih
    refine ⟨.plain '{' :: marks, reads_cons_iff.mpr ⟨rest, rfl, hMarks, nofun, ?_⟩⟩
    exact fun _ hCloses => closes_iff.mp hCloses hNone
  | case4 c rest hOther ih =>
    obtain ⟨marks, hMarks⟩ := ih
    refine ⟨.plain c :: marks, reads_cons_iff.mpr ⟨rest, rfl, hMarks, nofun, ?_⟩⟩
    rintro ⟨⟩
    exact absurd rfl hOther

theorem plain_spelling_ne_hole_spelling {c : Char} {run rest more : List Char} (hRun : IsRun run)
    (hBrace : Mark.plain c = .plain '{' → ¬ Closes rest) :
    (Mark.plain c).spelling ++ rest ≠ (Mark.hole run).spelling ++ more := by
  rw [spelling_hole_append]
  rintro ⟨⟩
  exact hBrace rfl ⟨run, more, rfl, hRun⟩

theorem reads_unique {other : List Mark} (h : Reads text marks) (hOther : Reads text other) :
    marks = other := by
  induction marks generalizing text other with
  | nil =>
    cases reads_nil_iff.mp h
    cases other with
    | nil => rfl
    | cons mark others =>
      obtain ⟨rest, hText, _⟩ := reads_cons_iff.mp hOther
      cases mark <;> cases hText
  | cons mark marks ih =>
    obtain ⟨rest, rfl, hRest, hHole, hBrace⟩ := reads_cons_iff.mp h
    cases other with
    | nil =>
      cases mark <;> cases reads_nil_iff.mp hOther
    | cons otherMark others =>
      obtain ⟨more, hText, hMore, hOtherHole, hOtherBrace⟩ := reads_cons_iff.mp hOther
      cases mark with
      | plain c =>
        cases otherMark with
        | plain d =>
          cases hText
          rw [ih hRest hMore]
        | hole run => exact absurd hText (plain_spelling_ne_hole_spelling (hOtherHole run rfl) hBrace)
      | hole run =>
        cases otherMark with
        | plain d =>
          exact absurd hText.symm (plain_spelling_ne_hole_spelling (hHole run rfl) hOtherBrace)
        | hole otherRun =>
          rw [spelling_hole_append, spelling_hole_append, List.cons.injEq] at hText
          have hFound := placeholder?_eq_some_iff.mpr ⟨hText.2, hOtherHole otherRun rfl⟩
          cases (placeholder?_eq_some_iff.mpr ⟨rfl, hHole run rfl⟩).symm.trans hFound
          rw [ih hRest hMore]

theorem existsUnique_reads (text : List Char) :
    ∃ marks, Reads text marks ∧ ∀ other, Reads text other → other = marks := by
  obtain ⟨marks, hMarks⟩ := exists_reads text
  exact ⟨marks, hMarks, fun other hOther => reads_unique hOther hMarks⟩

end Scanned

end Wiring.Template
