import Wiring.Failure
import Wiring.Proofs.Path.Dotted
import Wiring.Proofs.Template.Rendering

/-! # Malformed templates

A template is malformed if one of its placeholders is, whatever the arguments are, and it fails for
the leftmost such placeholder. What is said of it is a template in turn, but one without
placeholders, so that no report is followed by another (`render_ok_or_malformed`).
-/
namespace Wiring.Template
set_option autoImplicit false

def Mark.IsSound (mark : Mark) : Prop :=
  ∀ run, mark = .hole run → ∃ keys, Path.tokenize (String.ofList run) = .ok keys

/-- The run of the leftmost hole that has no keys, with what is wrong with it. -/
def IsFirstMalformed (marks : List Mark) (run : List Char) (malformed : Path.Malformed) : Prop :=
  ∃ before after, marks = before ++ .hole run :: after ∧ (∀ mark ∈ before, mark.IsSound) ∧
    Path.tokenize (String.ofList run) = .error malformed

theorem tokenize_of_isDigit {run : List Char} (hSome : run ≠ [])
    (hDigits : ∀ c ∈ run, c.isDigit = true) :
    Path.tokenize (String.ofList run) = .ok [String.ofList run] := by
  have hBare : Path.IsBareKey (String.ofList run) := by
    refine ⟨mt String.ofList_eq_empty_iff.mp hSome, fun c hMem => ?_⟩
    rw [String.toList_ofList] at hMem
    have hDigit := hDigits c hMem
    refine ⟨?_, ?_, ?_⟩ <;> rintro rfl <;> cases hDigit
  rw [Path.tokenize, Path.items_of_bare hBare]
  rfl

theorem keys?_target_eq_error_iff {run : List Char} {malformed : Path.Malformed} :
    (target run).keys? = .error malformed ↔
      Path.tokenize (String.ofList run) = .error malformed := by
  have hAsks : AsksFor run (target run) := asksFor_iff.mpr rfl
  generalize target run = path at hAsks ⊢
  cases hAsks with
  | first =>
    rw [Path.tokenize, String.toList_ofList, Path.items]
    constructor <;> intro h <;> cases h
  | place =>
    rw [tokenize_of_isDigit (Position.text_ne_nil _) fun _ => Position.isDigit_of_mem_text]
    constructor <;> intro h <;> cases h
  | path =>
    rw [Path.keys?]
    cases Path.tokenize (String.ofList run) with
    | error other =>
      show Except.error other = Except.error malformed ↔ _
      rw [Except.error.injEq, Except.error.injEq]
    | ok keys => constructor <;> intro h <;> cases h

theorem get?_eq_error_iff {value : Value} {path : Path} {malformed : Path.Malformed} :
    value.get? path = .error malformed ↔ path.keys? = .error malformed := by
  rw [Value.get?]
  cases path.keys? with
  | error other => exact ⟨by rintro ⟨⟩; rfl, by rintro ⟨⟩; rfl⟩
  | ok keys => constructor <;> intro h <;> cases h

theorem Mark.IsSound.shows {mark : Mark} (h : mark.IsSound) (source : Value) :
    ∃ text, Shows source mark text := by
  cases mark with
  | plain c => exact ⟨[c], .plain c⟩
  | hole run =>
    obtain ⟨keys, hKeys⟩ := h run rfl
    cases hFound : source.get? (target run) with
    | error malformed =>
      have hError := keys?_target_eq_error_iff.mp (get?_eq_error_iff.mp hFound)
      cases hKeys.symm.trans hError
    | ok found => exact ⟨_, shows_hole_iff.mpr ⟨found, hFound, rfl⟩⟩

theorem fill_of_isSound {marks : List Mark} (h : ∀ mark ∈ marks, mark.IsSound) (source : Value) :
    ∃ filled, fill source (marks.map Mark.piece) = .ok filled := by
  suffices hTexts : ∃ texts, List.Forall₂ (Shows source) marks texts by
    obtain ⟨texts, hTexts⟩ := hTexts
    exact ⟨texts.flatten, fill_eq_ok_iff.mpr ⟨texts, hTexts, rfl⟩⟩
  induction marks with
  | nil => exact ⟨[], .nil⟩
  | cons mark marks ih =>
    obtain ⟨hMark, hMarks⟩ := List.forall_mem_cons.mp h
    obtain ⟨text, hText⟩ := hMark.shows source
    obtain ⟨texts, hTexts⟩ := ih hMarks
    exact ⟨text :: texts, .cons hText hTexts⟩

theorem fill_cons_of_error {mark : Mark} (h : mark.IsSound) {marks : List Mark} {source : Value}
    {malformed : Path.Malformed} (hRest : fill source (marks.map Mark.piece) = .error malformed) :
    fill source ((mark :: marks).map Mark.piece) = .error malformed := by
  cases mark with
  | plain c =>
    rw [List.map_cons, Mark.piece, fill, hRest]
    rfl
  | hole run =>
    obtain ⟨text, hText⟩ := h.shows source
    obtain ⟨found, hFound, _⟩ := shows_hole_iff.mp hText
    rw [List.map_cons, Mark.piece, fill, hFound, hRest]
    rfl

theorem fill_of_isFirstMalformed {marks : List Mark} {run : List Char} {malformed : Path.Malformed}
    (h : IsFirstMalformed marks run malformed) (source : Value) :
    fill source (marks.map Mark.piece) = .error malformed := by
  obtain ⟨before, after, rfl, hBefore, hRun⟩ := h
  induction before with
  | nil =>
    have hGet : source.get? (target run) = .error malformed :=
      get?_eq_error_iff.mpr (keys?_target_eq_error_iff.mpr hRun)
    rw [List.nil_append, List.map_cons, Mark.piece, fill, hGet]
    rfl
  | cons mark before ih =>
    obtain ⟨hMark, hMarks⟩ := List.forall_mem_cons.mp hBefore
    exact fill_cons_of_error hMark (ih hMarks)

theorem isSound_or_isFirstMalformed (marks : List Mark) :
    (∀ mark ∈ marks, mark.IsSound) ∨ ∃ run malformed, IsFirstMalformed marks run malformed := by
  induction marks with
  | nil => exact .inl nofun
  | cons mark marks ih =>
    by_cases hMark : mark.IsSound
    · rcases ih with hMarks | ⟨run, malformed, before, after, rfl, hBefore, hRun⟩
      · exact .inl (List.forall_mem_cons.mpr ⟨hMark, hMarks⟩)
      · exact .inr ⟨run, malformed, mark :: before, after, rfl,
          List.forall_mem_cons.mpr ⟨hMark, hBefore⟩, hRun⟩
    · simp only [Mark.IsSound, Classical.not_forall] at hMark
      obtain ⟨run, rfl, hKeys⟩ := hMark
      cases hRun : Path.tokenize (String.ofList run) with
      | ok keys => exact absurd ⟨keys, hRun⟩ hKeys
      | error malformed => exact .inr ⟨run, malformed, [], marks, rfl, nofun, hRun⟩

section Rendered

variable {template : String} {marks : List Mark} (hReads : Reads template.toList marks)

include hReads

theorem exists_render_eq_ok (h : ∀ mark ∈ marks, mark.IsSound) (args : List Value) :
    ∃ text, render template args = .ok text := by
  obtain ⟨filled, hFilled⟩ := fill_of_isSound h (source args)
  rw [render, pieces_of_reads hReads, hFilled]
  exact ⟨_, rfl⟩

theorem render_eq_error {run : List Char} {malformed : Path.Malformed}
    (h : IsFirstMalformed marks run malformed) (args : List Value) :
    render template args = .error malformed := by
  rw [render, pieces_of_reads hReads, fill_of_isFirstMalformed h]
  rfl

end Rendered

inductive Says : Path.Fault → (text message : String) → Prop
  | invalidIndex (text : String) : Says .invalidIndex text ("invalid index " ++ text)
  | unexpectedAfterIndex (text : String) :
    Says .unexpectedAfterIndex text ("unexpected character after index " ++ text)

/-- A malformed path is reported by a template of its own, and if that is malformed too by the next:
the text that comes of it, if at most `levels` reports follow each other. -/
def interpolateWithin (levels : Nat) (template : String) (args : List Value) : Option String :=
  match render template args with
  | .ok text => some text
  | .error malformed =>
    match levels with
    | 0 => none
    | levels + 1 => interpolateWithin levels malformed.fault.message [.string malformed.text]

theorem malformed_of_tokenize {text : String} {malformed : Path.Malformed}
    (h : Path.tokenize text = .error malformed) : malformed.text = text ∧ text ≠ "" := by
  constructor
  · rw [Path.tokenize] at h
    cases hItems : Path.items text.toList with
    | ok keys =>
      rw [hItems] at h
      cases h
    | error fault =>
      rw [hItems] at h
      cases h
      rfl
  · rintro rfl
    rw [Path.tokenize, String.toList_empty, Path.items] at h
    cases h

theorem reads_plain {text : List Char} (h : '{' ∉ text) : Reads text (text.map .plain) where
  spelled := by
    rw [spelling, List.flatMap_map]
    exact List.flatMap_singleton' text
  runs run hMem := by
    obtain ⟨c, _, ⟨⟩⟩ := List.mem_map.mp hMem
  braces before after hMarks := by
    have hMem : Mark.plain '{' ∈ text.map .plain := hMarks ▸ List.mem_append_cons_self
    obtain ⟨c, hChar, ⟨⟩⟩ := List.mem_map.mp hMem
    exact absurd hChar h

theorem fill_plain (text : List Char) (source : Value) :
    fill source ((text.map Mark.plain).map Mark.piece) = .ok text := by
  induction text with
  | nil => rfl
  | cons c rest ih =>
    rw [List.map_cons, List.map_cons, Mark.piece, fill, ih]
    rfl

theorem render_of_not_mem {template : String} (h : '{' ∉ template.toList) (args : List Value) :
    render template args = .ok (withTrailer (source args) template) := by
  have hNone (run : List Char) : .hole run ∉ template.toList.map Mark.plain := by
    intro hMem
    obtain ⟨c, _, ⟨⟩⟩ := List.mem_map.mp hMem
  rw [render_of_reads (reads_plain h)]
  refine ⟨template.toList, _, fill_plain _ _, (follows_of_not_mem hNone).mpr rfl, ?_⟩
  rw [withTrailer_eq, String.ofList_toList]

theorem render_text {template text : String} (h : '{' ∉ template.toList) (hText : text ≠ "") :
    render template [.string text] = .ok (template ++ " " ++ text) := by
  have hSome : text.isEmpty = false := Bool.eq_false_iff.mpr (mt String.isEmpty_iff.mp hText)
  rw [render_of_not_mem h]
  show Except.ok (if text.isEmpty then template else template ++ " " ++ text) = _
  rw [hSome]
  rfl

theorem brace_not_mem_message (fault : Path.Fault) : '{' ∉ fault.message.toList := by
  cases fault <;> decide

theorem render_message (fault : Path.Fault) {text : String} (hText : text ≠ "") :
    render fault.message [.string text] = .ok (fault.message ++ " " ++ text) :=
  render_text (brace_not_mem_message fault) hText

theorem message_ofMalformed {malformed : Path.Malformed} (hText : malformed.text ≠ "") :
    (Failure.ofMalformed malformed).message = malformed.fault.message ++ " " ++ malformed.text := by
  have hMessage : (Failure.ofMalformed malformed).message =
      interpolate malformed.fault.message [.string malformed.text] := by
    obtain ⟨_ | _, text⟩ := malformed <;> rfl
  rw [hMessage, interpolate, render_message malformed.fault hText]

theorem kind_ofMalformed (malformed : Path.Malformed) :
    (Failure.ofMalformed malformed).kind = .lexical := by
  obtain ⟨_ | _, text⟩ := malformed <;> rfl

theorem says_message (fault : Path.Fault) (text : String) :
    Says fault text (fault.message ++ " " ++ text) := by
  rw [String.append_assoc]
  cases fault with
  | invalidIndex =>
    have hMessage : Path.Fault.invalidIndex.message ++ (" " ++ text) = "invalid index " ++ text := by
      rw [← String.append_assoc]
      rfl
    exact hMessage ▸ .invalidIndex text
  | unexpectedAfterIndex =>
    have hMessage : Path.Fault.unexpectedAfterIndex.message ++ (" " ++ text) =
        "unexpected character after index " ++ text := by
      rw [← String.append_assoc]
      rfl
    exact hMessage ▸ .unexpectedAfterIndex text

theorem interpolateWithin_of_render {template text : String} {args : List Value} (levels : Nat)
    (h : render template args = .ok text) : interpolateWithin levels template args = some text := by
  rw [interpolateWithin, h]

theorem interpolateWithin_of_malformed {template : String} {args : List Value}
    {malformed : Path.Malformed} (levels : Nat) (h : render template args = .error malformed)
    (hText : malformed.text ≠ "") :
    interpolateWithin (levels + 1) template args =
      some (malformed.fault.message ++ " " ++ malformed.text) := by
  rw [interpolateWithin, h]
  exact interpolateWithin_of_render levels (render_message malformed.fault hText)

/-- A template reads in one way. Either all its placeholders have keys, and then it is rendered
whatever the arguments are, or it fails for the leftmost one that has none, whatever they are, and
this is reported with its text. No report is followed by another. -/
theorem render_ok_or_malformed (template : String) :
    ∃ marks, Reads template.toList marks ∧
      (∀ other, Reads template.toList other → other = marks) ∧
      ((∀ args, ∃ text, render template args = .ok text ∧ interpolate template args = text ∧
          ∀ levels, interpolateWithin levels template args = some text) ∨
        ∃ run malformed, IsFirstMalformed marks run malformed ∧
          (Failure.ofMalformed malformed).kind = .lexical ∧
          Says malformed.fault (String.ofList run) (Failure.ofMalformed malformed).message ∧
          ∀ args, (render template args).mapError Failure.ofMalformed =
              .error (.ofMalformed malformed) ∧
            interpolate template args = (Failure.ofMalformed malformed).message ∧
            ∀ levels, interpolateWithin (levels + 1) template args =
              some (interpolate template args)) := by
  obtain ⟨marks, hReads, hUnique⟩ := existsUnique_reads template.toList
  refine ⟨marks, hReads, hUnique, ?_⟩
  rcases isSound_or_isFirstMalformed marks with hSound | ⟨run, malformed, hFirst⟩
  · left
    intro args
    obtain ⟨text, hRender⟩ := exists_render_eq_ok hReads hSound args
    refine ⟨text, hRender, ?_, fun levels => interpolateWithin_of_render levels hRender⟩
    rw [interpolate, hRender]
  · right
    obtain ⟨before, after, hMarks, hBefore, hRun⟩ := hFirst
    obtain ⟨hText, hSome⟩ := malformed_of_tokenize hRun
    rw [← hText] at hSome
    refine ⟨run, malformed, ⟨before, after, hMarks, hBefore, hRun⟩, kind_ofMalformed malformed, ?_, ?_⟩
    · rw [message_ofMalformed hSome, hText]
      exact says_message malformed.fault _
    · intro args
      have hRender := render_eq_error hReads ⟨before, after, hMarks, hBefore, hRun⟩ args
      have hShown : interpolate template args = (Failure.ofMalformed malformed).message := by
        rw [interpolate, hRender, message_ofMalformed hSome]
        exact if_neg (mt String.isEmpty_iff.mp hSome)
      refine ⟨by rw [hRender]; rfl, hShown, fun levels => ?_⟩
      rw [interpolateWithin_of_malformed levels hRender hSome, hShown, message_ofMalformed hSome]

end Wiring.Template
