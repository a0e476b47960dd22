import Mathlib.Data.List.Forall2
import Wiring.Proofs.Template.Reading
import Wiring.Proofs.Value.Position

/-! # What templates show

A template shows each mark by itself: a character as it is, a placeholder as the value that its run
asks for. Nothing that is shown is read again. Where there is no placeholder the source follows.
What is rendered is just that, and it is rendered wherever each placeholder asks for something
(`render_eq_ok_iff`).
-/
namespace Wiring.Template
set_option autoImplicit false

/-- An empty run asks for the first argument, a number without leading zeros that fits 64 bits for
the argument at that place counted from one, any other run for what it leads to as a path. -/
inductive AsksFor : (run : List Char) → Path → Prop
  | first : AsksFor [] (.index 0)
  | place {n : Nat} : 0 < n → n < UInt64.size → AsksFor (Position.text n).toList (.index (n - 1))
  | path {run : List Char} : run ≠ [] →
    (∀ n, 0 < n → n < UInt64.size → run ≠ (Position.text n).toList) →
    AsksFor run (.text (String.ofList run))

theorem target_of_number {run : List Char} (hSome : run ≠ [])
    (hDigits : ∀ c ∈ run, c.isDigit = true) (hFirst : run.head? ≠ some '0')
    (hFits : Position.number run < UInt64.size) :
    target run = .index (Position.number run - 1) := by
  have hNumber : (run.all Char.isDigit && run.head? != some '0' &&
      decide (Position.number run < Nat.pow 2 64)) = true := by
    rw [Bool.and_eq_true, Bool.and_eq_true, bne_iff_ne, decide_eq_true_iff]
    exact ⟨⟨List.all_eq_true.mpr hDigits, hFirst⟩, hFits⟩
  rw [target, if_neg (by simpa using hSome), if_pos hNumber]

theorem target_text {n : Nat} (hPos : 0 < n) (hFits : n < UInt64.size) :
    target (Position.text n).toList = .index (n - 1) := by
  have hNumber : Position.number (Position.text n).toList = n := Position.number_text n
  rw [target_of_number (Position.text_ne_nil n) (fun _ => Position.isDigit_of_mem_text)
    (Position.head?_text_ne_zero hPos) (hNumber.symm ▸ hFits), hNumber]

theorem target_of_ne {run : List Char} (hSome : run ≠ [])
    (hNone : ∀ n, 0 < n → n < UInt64.size → run ≠ (Position.text n).toList) :
    target run = .text (String.ofList run) := by
  rw [target, if_neg (by simpa using hSome), if_neg]
  intro hNumber
  rw [Bool.and_eq_true, Bool.and_eq_true, bne_iff_ne, decide_eq_true_iff] at hNumber
  obtain ⟨⟨hAll, hFirst⟩, hFits⟩ := hNumber
  have hText := Position.text_number (List.all_eq_true.mp hAll) hSome hFirst
  have hPos : 0 < Position.number run := by
    apply Nat.pos_of_ne_zero
    intro hZero
    rw [hZero] at hText
    exact hFirst (hText ▸ rfl)
  exact hNone (Position.number run) hPos hFits hText.symm

theorem asksFor_iff {run : List Char} {path : Path} : AsksFor run path ↔ target run = path := by
  constructor
  · rintro (_ | ⟨hPos, hFits⟩ | ⟨hSome, hNone⟩)
    · rfl
    · exact target_text hPos hFits
    · exact target_of_ne hSome hNone
  · rintro rfl
    by_cases hSome : run = []
    · rw [hSome]
      exact .first
    · by_cases hPlace : ∃ n, 0 < n ∧ n < UInt64.size ∧ run = (Position.text n).toList
      · obtain ⟨n, hPos, hFits, rfl⟩ := hPlace
        rw [target_text hPos hFits]
        exact .place hPos hFits
      · have hNone : ∀ n, 0 < n → n < UInt64.size → run ≠ (Position.text n).toList :=
          fun n hPos hFits hRun => hPlace ⟨n, hPos, hFits, hRun⟩
        rw [target_of_ne hSome hNone]
        exact .path hSome hNone

/-- Placeholders look into a lone argument that is a container or an object, and into the sequence
of all arguments otherwise. -/
inductive LooksInto : (args : List Value) → Value → Prop
  | lone {value : Value} : value.isAggregate = true → LooksInto [value] value
  | all {args : List Value} : (∀ value, args = [value] → value.isAggregate = false) →
    LooksInto args (.sequence args)

theorem looksInto_iff {args : List Value} {value : Value} :
    LooksInto args value ↔ source args = value := by
  constructor
  · rintro (hLone | hAll)
    · exact if_pos hLone
    · match args with
      | [] => rfl
      | [single] => exact if_neg (Bool.eq_false_iff.mp (hAll single rfl))
      | _ :: _ :: _ => rfl
  · rintro rfl
    match args with
    | [] => exact .all nofun
    | [single] =>
      by_cases hLone : single.isAggregate = true
      · rw [source, if_pos hLone]
        exact .lone hLone
      · rw [source, if_neg hLone]
        refine .all fun value h => ?_
        cases h
        exact Bool.eq_false_iff.mpr hLone
    | _ :: _ :: _ => exact .all nofun

/-- What a mark is shown as. -/
inductive Shows (source : Value) : Mark → List Char → Prop
  | plain (c : Char) : Shows source (.plain c) [c]
  | found {run : List Char} {path : Path} {value : Value} : AsksFor run path →
    source.get? path = .ok (some value) → Shows source (.hole run) value.display.toList
  | absent {run : List Char} {path : Path} : AsksFor run path → source.get? path = .ok none →
    Shows source (.hole run) "null".toList

theorem shows_hole_iff {source : Value} {run text : List Char} :
    Shows source (.hole run) text ↔ ∃ found, source.get? (target run) = .ok found ∧
      text = (found.getD .null).display.toList := by
  constructor
  · rintro (_ | ⟨hPath, hGet⟩ | ⟨hPath, hGet⟩)
    · exact ⟨_, asksFor_iff.mp hPath ▸ hGet, rfl⟩
    · exact ⟨none, asksFor_iff.mp hPath ▸ hGet, rfl⟩
  · rintro ⟨_ | value, hGet, rfl⟩
    · exact .absent (asksFor_iff.mpr rfl) hGet
    · exact .found (asksFor_iff.mpr rfl) hGet

theorem fill_placeholder_eq_ok_iff {source : Value} {path : Path} {rest : List Piece}
    {text : List Char} :
    fill source (.placeholder path :: rest) = .ok text ↔ ∃ found more,
      source.get? path = .ok found ∧ fill source rest = .ok more ∧
        text = (found.getD .null).display.toList ++ more := by
  rw [fill]
  cases source.get? path with
  | error malformed => exact ⟨nofun, nofun⟩
  | ok found =>
    cases fill source rest with
    | error malformed => exact ⟨nofun, nofun⟩
    | ok more =>
      constructor
      · rintro ⟨⟩
        exact ⟨found, more, rfl, rfl, rfl⟩
      · rintro ⟨_, _, ⟨⟩, ⟨⟩, rfl⟩
        rfl

theorem fill_literal_eq_ok_iff {source : Value} {c : Char} {rest : List Piece} {text : List Char} :
    fill source (.literal c :: rest) = .ok text ↔ ∃ more, fill source rest = .ok more ∧
      text = c :: more := by
  rw [fill]
  cases fill source rest with
  | error malformed => exact ⟨nofun, nofun⟩
  | ok more =>
    constructor
    · rintro ⟨⟩
      exact ⟨more, rfl, rfl⟩
    · rintro ⟨_, ⟨⟩, rfl⟩
      rfl

theorem fill_eq_ok_iff {source : Value} {marks : List Mark} {text : List Char} :
    fill source (marks.map Mark.piece) = .ok text ↔
      ∃ texts, List.Forall₂ (Shows source) marks texts ∧ text = texts.flatten := by
  induction marks generalizing text with
  | nil =>
    constructor
    · rintro ⟨⟩
      exact ⟨[], .nil, rfl⟩
    · rintro ⟨_, ⟨⟩, rfl⟩
      rfl
  | cons mark marks ih =>
    simp only [List.forall₂_cons_left_iff]
    cases mark with
    | plain c =>
      rw [List.map_cons, Mark.piece, fill_literal_eq_ok_iff]
      constructor
      · rintro ⟨more, hMore, rfl⟩
        obtain ⟨texts, hTexts, rfl⟩ := ih.mp hMore
        exact ⟨[c] :: texts, ⟨[c], texts, .plain c, hTexts, rfl⟩, rfl⟩
      · rintro ⟨_, ⟨_, texts, ⟨⟩, hTexts, rfl⟩, rfl⟩
        exact ⟨texts.flatten, ih.mpr ⟨texts, hTexts, rfl⟩, rfl⟩
    | hole run =>
      rw [List.map_cons, Mark.piece, fill_placeholder_eq_ok_iff]
      constructor
      · rintro ⟨found, more, hGet, hMore, rfl⟩
        obtain ⟨texts, hTexts, rfl⟩ := ih.mp hMore
        exact ⟨_ :: texts, ⟨_, texts, shows_hole_iff.mpr ⟨found, hGet, rfl⟩, hTexts, rfl⟩, rfl⟩
      · rintro ⟨_, ⟨_, texts, hShows, hTexts, rfl⟩, rfl⟩
        obtain ⟨found, hGet, rfl⟩ := shows_hole_iff.mp hShows
        exact ⟨found, texts.flatten, hGet, ih.mpr ⟨texts, hTexts, rfl⟩, rfl⟩

def apart (text : String) : String := if text.isEmpty then "" else " " ++ text

/-- Where no placeholder was replaced, a source other than an empty container follows: as its only
item, if that is not null, or else as it is. -/
inductive Follows (source : Value) (marks : List Mark) : String → Prop
  | replaced {run : List Char} : .hole run ∈ marks → Follows source marks ""
  | empty : (∀ run, .hole run ∉ marks) → source.isEmptyContainer = true → Follows source marks ""
  | lone {item : Value} : (∀ run, .hole run ∉ marks) → source = .sequence [item] →
    item.isNull = false → Follows source marks (apart item.display)
  | whole : (∀ run, .hole run ∉ marks) → source.isEmptyContainer = false →
    (∀ item, source = .sequence [item] → item.isNull = true) →
    Follows source marks (apart source.display)

theorem any_isPlaceholder_iff {marks : List Mark} :
    (marks.map Mark.piece).any isPlaceholder = true ↔ ∃ run, .hole run ∈ marks := by
  rw [List.any_map, List.any_eq_true]
  constructor
  · rintro ⟨mark, hMem, hHole⟩
    cases mark with
    | plain c => cases hHole
    | hole run => exact ⟨run, hMem⟩
  · rintro ⟨run, hMem⟩
    exact ⟨.hole run, hMem, rfl⟩

theorem trailer_lone {item : Value} (h : item.isNull = false) :
    trailer (.sequence [item]) = item.display := by
  cases item <;> first | rfl | cases h

theorem trailer_whole {source : Value}
    (h : ∀ item, source = .sequence [item] → item.isNull = true) :
    trailer source = source.display := by
  unfold trailer
  split
  · rfl
  · rename_i single hNotNull
    have hNull := h single rfl
    cases single with
    | null => exact absurd rfl hNotNull
    | _ => cases hNull
  · rfl

section Following

variable {source : Value} {marks : List Mark} {tail : String}

theorem follows_of_mem {run : List Char} (h : .hole run ∈ marks) :
    Follows source marks tail ↔ tail = "" := by
  constructor
  · rintro (_ | ⟨hNone, _⟩ | ⟨hNone, _, _⟩ | ⟨hNone, _, _⟩)
    · rfl
    · rfl
    · exact absurd h (hNone run)
    · exact absurd h (hNone run)
  · rintro rfl
    exact .replaced h

theorem follows_of_not_mem (h : ∀ run, .hole run ∉ marks) :
    Follows source marks tail ↔
      tail = if source.isEmptyContainer then "" else apart (trailer source) := by
  constructor
  · rintro (hMem | ⟨_, hEmpty⟩ | ⟨_, rfl, hItem⟩ | ⟨_, hSome, hItems⟩)
    · exact absurd hMem (h _)
    · rw [if_pos hEmpty]
    · rw [trailer_lone hItem]
      rfl
    · rw [trailer_whole hItems, if_neg (Bool.eq_false_iff.mp hSome)]
  · rintro rfl
    by_cases hEmpty : source.isEmptyContainer = true
    · rw [if_pos hEmpty]
      exact .empty h hEmpty
    · rw [if_neg hEmpty]
      by_cases hLone : ∃ item, source = .sequence [item] ∧ item.isNull = false
      · obtain ⟨item, rfl, hItem⟩ := hLone
        rw [trailer_lone hItem]
        exact .lone h rfl hItem
      · have hItems (item : Value) (hSource : source = .sequence [item]) : item.isNull = true := by
          rw [← Bool.not_eq_false]
          exact fun hItem => hLone ⟨item, hSource, hItem⟩
        rw [trailer_whole hItems]
        exact .whole h (Bool.eq_false_iff.mpr hEmpty) hItems

end Following

theorem withTrailer_eq (source : Value) (text : String) :
    withTrailer source text =
      text ++ if source.isEmptyContainer then "" else apart (trailer source) := by
  rw [withTrailer, apart]
  cases source.isEmptyContainer with
  | true => exact String.append_empty.symm
  | false =>
    cases (trailer source).isEmpty with
    | true => exact String.append_empty.symm
    | false => exact String.append_assoc

/-- A template that is read as marks is rendered by filling them in and adding what follows. -/
theorem render_of_reads {template : String} {marks : List Mark} {args : List Value} {text : String}
    (h : Reads template.toList marks) :
    render template args = .ok text ↔
      ∃ filled tail, fill (source args) (marks.map Mark.piece) = .ok filled ∧
        Follows (source args) marks tail ∧ text = String.ofList filled ++ tail := by
  rw [render, pieces_of_reads h]
  cases fill (source args) (marks.map Mark.piece) with
  | error malformed => exact ⟨nofun, nofun⟩
  | ok filled =>
    have hRendered : (∃ tail, Follows (source args) marks tail ∧
        text = String.ofList filled ++ tail) ↔
        (if (marks.map Mark.piece).any isPlaceholder then String.ofList filled
          else withTrailer (source args) (String.ofList filled)) = text := by
      by_cases hHole : ∃ run, .hole run ∈ marks
      · rw [if_pos (any_isPlaceholder_iff.mpr hHole)]
        obtain ⟨run, hMem⟩ := hHole
        simp only [follows_of_mem hMem, exists_eq_left, String.append_empty, eq_comm]
      · have hNone (run : List Char) : .hole run ∉ marks := fun hMem => hHole ⟨run, hMem⟩
        rw [if_neg (mt any_isPlaceholder_iff.mp hHole)]
        simp only [follows_of_not_mem hNone, withTrailer_eq, exists_eq_left, eq_comm]
    constructor
    · rintro ⟨⟩
      obtain ⟨tail, hTail, hText⟩ := hRendered.mpr rfl
      exact ⟨filled, tail, rfl, hTail, hText⟩
    · rintro ⟨_, tail, ⟨⟩, hTail, hText⟩
      exact congrArg Except.ok (hRendered.mp ⟨tail, hTail, hText⟩)

/-- A template reads in one way. It is rendered if each of its marks is shown, and then as what they
are shown as with what follows. -/
theorem render_eq_ok_iff (template : String) :
    ∃ marks, Reads template.toList marks ∧
      (∀ other, Reads template.toList other → other = marks) ∧
      ∀ args text, render template args = .ok text ↔
        ∃ source texts tail, LooksInto args source ∧ List.Forall₂ (Shows source) marks texts ∧
          Follows source marks tail ∧ text = String.ofList texts.flatten ++ tail := by
  obtain ⟨marks, hReads, hUnique⟩ := existsUnique_reads template.toList
  refine ⟨marks, hReads, hUnique, fun args text => ?_⟩
  rw [render_of_reads hReads]
  constructor
  · rintro ⟨filled, tail, hFilled, hTail, rfl⟩
    obtain ⟨texts, hTexts, rfl⟩ := fill_eq_ok_iff.mp hFilled
    exact ⟨source args, texts, tail, looksInto_iff.mpr rfl, hTexts, hTail, rfl⟩
  · rintro ⟨_, texts, tail, hSource, hTexts, hTail, rfl⟩
    cases looksInto_iff.mp hSource
    exact ⟨texts.flatten, tail, fill_eq_ok_iff.mpr ⟨texts, hTexts, rfl⟩, hTail, rfl⟩

end Wiring.Template
