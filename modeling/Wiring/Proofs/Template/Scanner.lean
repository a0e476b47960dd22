import Wiring.Proofs.Name.Cuts
import Wiring.Proofs.Path.Scanner
import Wiring.Proofs.Template.Malformed

/-! # Templates by byte offsets

A template is scanned with an offset into it. Placeholders are looked for in a window of bytes,
which may end within a character. No template and no arguments make a breach of it (`scan_eq_pure`),
nor does the report of a malformed path (`report_eq_pure`). `scanners_without_breach` says the same
of templates, path text and names together, and that scanning ends.
-/
namespace Wiring.Template
open Text
set_option autoImplicit false

/-- How many bytes at the start of a window stand for such characters. -/
def runLength (p : Char → Bool) (window : List UInt8) : Nat :=
  (window.takeWhile (p ∘ Char.ofUInt8)).length

def placeAt (rest : String) (window : List UInt8) : Checked (Option (Path × Nat)) := do
  let digits := runLength Char.isDigit window
  if 0 < digits then
    let first ← byteAt window 0
    if first ≠ '0'.toUInt8 ∧ window[digits]? = some '}'.toUInt8 then
      let number := Position.number (← cut rest 0 digits).toList
      if number < UInt64.size then return some (.index (← minus number 1), digits + 1)
      else return none
    else return none
  else return none

def pathAt (rest : String) (window : List UInt8) : Checked (Option (Path × Nat)) := do
  let chars := runLength isPlaceholderChar window
  if 0 < chars ∧ window[chars]? = some '}'.toUInt8 then
    return some (.text (← cut rest 0 chars), chars + 1)
  else return none

/-- What a placeholder asks for, and its bytes with the closing brace, by the first rule that takes
it: for places, for paths, for the first argument. -/
def classify (rest : String) (window : List UInt8) : Checked (Option (Path × Nat)) := do
  match ← placeAt rest window with
  | some found => return some found
  | none =>
    match ← pathAt rest window with
    | some found => return some found
    | none => return if window.head? = some '}'.toUInt8 then some (.index 0, 1) else none

def placeholderAt (template : String) (offset : Nat) : Checked (Option (Path × Nat)) := do
  let rest ← cut template offset template.utf8ByteSize
  classify rest (← window rest (min rest.utf8ByteSize (maxPlaceholder + 1)))

def keysOf (path : Path) : Checked (Except Path.Malformed (Option (List String))) := do
  match path with
  | .text text => return (← Path.scan text).map some
  | path => return path.keys?

def valueAt (source : Value) (path : Path) : Checked (Except Path.Malformed (Option Value)) := do
  return (← keysOf path).map fun
    | none => some source
    | some keys => ((Value.Reading.borrowed source).walk? keys).map Value.Reading.value

structure Filling where
  offset : Nat
  text : String
  replaced : Bool

def fillPass (source : Value) (template : String) (state : Filling) :
    Checked (Pass Filling (Except Path.Malformed (String × Bool))) := do
  if state.offset < template.utf8ByteSize then
    let rest ← cut template state.offset template.utf8ByteSize
    match offsetOf? '{' rest with
    | none => return .done (.ok (state.text ++ rest, state.replaced))
    | some size =>
      let text := state.text ++ (← cut rest 0 size)
      let inside := state.offset + (size + 1)
      match ← placeholderAt template inside with
      | none => return .again ⟨inside, text ++ "\x7b", state.replaced⟩
      | some (path, past) =>
        match ← valueAt source path with
        | .error malformed => return .done (.error malformed)
        | .ok found => return .again ⟨inside + past, text ++ found.elim "null" Value.display, true⟩
  else return .done (.ok (state.text, state.replaced))

def scan (template : String) (args : List Value) : Checked (Except Path.Malformed String) := do
  let filled ← loop (template.utf8ByteSize - ·.offset) (fillPass (source args) template)
    ⟨0, "", false⟩
  return filled.map fun (text, replaced) =>
    if replaced then text else withTrailer (source args) text

/-- A template with its arguments, or the report of a path in it. -/
structure Asked where
  template : String
  args : List Value

def Asked.braces (asked : Asked) : Nat := asked.template.toList.count '{'

def reportPass (asked : Asked) : Checked (Pass Asked String) := do
  match ← scan asked.template asked.args with
  | .ok text => return .done text
  | .error malformed => return .again ⟨malformed.fault.message, [.string malformed.text]⟩

def report (template : String) (args : List Value) : Checked String :=
  loop Asked.braces reportPass ⟨template, args⟩

def windowOf (rest : List Char) : List UInt8 :=
  (bytes (String.ofList rest)).take (maxPlaceholder + 1)

section Windows

variable {p : Char → Bool} {c : Char} {name after rest : List Char}

theorem window_eq_pure (rest : List Char) :
    window (String.ofList rest) (min (String.ofList rest).utf8ByteSize (maxPlaceholder + 1)) =
      pure (windowOf rest) := by
  rw [window_of_le (Nat.min_le_left _ _), windowOf, Nat.min_comm]
  exact congrArg pure (List.take_eq_take_min).symm

example : windowOf (List.replicate 79 'a' ++ ['ä']) = List.replicate 79 0x61 ++ [0xC3] := by rfl

theorem head?_windowOf_eq_some_iff (h : c.utf8Size = 1) :
    (windowOf rest).head? = some c.toUInt8 ↔ rest.head? = some c := by
  rw [windowOf, List.head?_take, if_neg (Nat.succ_ne_zero _), head?_bytes_eq_some_iff h]

theorem isNarrow_isPlaceholderChar : IsNarrow isPlaceholderChar :=
  fun _ => utf8Size_of_isPlaceholderChar

theorem isPlaceholderChar_of_isDigit (h : c.isDigit = true) : isPlaceholderChar c = true := by
  simp [isPlaceholderChar, Char.isAlphanum, h]

theorem isNarrow_isDigit : IsNarrow Char.isDigit :=
  fun _ h => utf8Size_of_isPlaceholderChar (isPlaceholderChar_of_isDigit h)

theorem length_bytes_takeWhile (hNarrow : IsNarrow p) (rest : List Char) :
    (bytes (String.ofList (rest.takeWhile p))).length = (rest.takeWhile p).length :=
  length_bytes_of_isNarrow hNarrow (List.all_eq_true.mp List.all_takeWhile)

theorem runLength_windowOf (hNarrow : IsNarrow p) (rest : List Char) :
    runLength p (windowOf rest) = min (maxPlaceholder + 1) (rest.takeWhile p).length := by
  rw [runLength, windowOf, ← List.take_takeWhile, takeWhile_bytes hNarrow, List.length_take,
    length_bytes_takeWhile hNarrow]

theorem closing_windowOf_iff (hNarrow : IsNarrow p) (rest : List Char) :
    (windowOf rest)[runLength p (windowOf rest)]? = some '}'.toUInt8 ↔
      (rest.takeWhile p).length ≤ maxPlaceholder ∧ (rest.dropWhile p).head? = some '}' := by
  have hLength := length_bytes_takeWhile hNarrow rest
  have hBytes : bytes (String.ofList rest) = bytes (String.ofList (rest.takeWhile p)) ++
      bytes (String.ofList (rest.dropWhile p)) := by
    rw [← bytes_append, List.takeWhile_append_dropWhile]
  rw [runLength_windowOf hNarrow, windowOf, List.getElem?_take]
  by_cases hFits : (rest.takeWhile p).length ≤ maxPlaceholder
  · rw [Nat.min_eq_right (by omega), if_pos (by omega), ← hLength, hBytes,
      List.getElem?_append_right (Nat.le_refl _), Nat.sub_self, ← List.head?_eq_getElem?,
      head?_bytes_eq_some_iff rfl, hLength, and_iff_right hFits]
  · rw [Nat.min_eq_left (by omega), if_neg (Nat.lt_irrefl _)]
    simp [hFits]

theorem exists_of_closing_windowOf (hNarrow : IsNarrow p)
    (h : (windowOf rest)[runLength p (windowOf rest)]? = some '}'.toUInt8) :
    ∃ name after, rest = name ++ '}' :: after ∧ (∀ c ∈ name, p c = true) ∧
      name.length ≤ maxPlaceholder := by
  obtain ⟨hFits, hBrace⟩ := (closing_windowOf_iff hNarrow rest).mp h
  obtain ⟨after, hAfter⟩ := List.head?_eq_some_iff.mp hBrace
  refine ⟨rest.takeWhile p, after, ?_, List.all_eq_true.mp List.all_takeWhile, hFits⟩
  rw [← hAfter, List.takeWhile_append_dropWhile]

section Closed

variable (hNarrow : IsNarrow p) (hBrace : p '}' = false) (hName : ∀ c ∈ name, p c = true)
  (hFits : name.length ≤ maxPlaceholder)

include hNarrow hBrace hName hFits

theorem runLength_windowOf_append :
    runLength p (windowOf (name ++ '}' :: after)) = name.length := by
  rw [runLength_windowOf hNarrow, List.takeWhile_append_of_pos hName,
    List.takeWhile_cons_of_neg (Bool.eq_false_iff.mp hBrace), List.append_nil]
  omega

theorem closing_windowOf_append :
    (windowOf (name ++ '}' :: after))[name.length]? = some '}'.toUInt8 := by
  have hClosing := (closing_windowOf_iff hNarrow (name ++ '}' :: after)).mpr
  rw [runLength_windowOf_append hNarrow hBrace hName hFits, List.takeWhile_append_of_pos hName,
    List.takeWhile_cons_of_neg (Bool.eq_false_iff.mp hBrace), List.append_nil,
    List.dropWhile_append_of_pos hName, List.dropWhile_cons_of_neg (Bool.eq_false_iff.mp hBrace)]
    at hClosing
  exact hClosing ⟨hFits, rfl⟩

end Closed

theorem exists_byteAt_of_runLength_pos {window : List UInt8} (h : 0 < runLength p window) :
    ∃ byte, byteAt window 0 = pure byte ∧ window.head? = some byte := by
  cases window with
  | nil => cases h
  | cons byte rest => exact ⟨byte, rfl, rfl⟩

end Windows

section Placeholders

variable {name after rest : List Char}

structure IsPlace (name : List Char) : Prop where
  digits : ∀ c ∈ name, c.isDigit = true
  nonempty : name ≠ []
  first : name.head? ≠ some '0'
  fits : Position.number name < UInt64.size

theorem IsPlace.number_pos (h : IsPlace name) : 1 ≤ Position.number name := by
  apply Nat.pos_of_ne_zero
  intro hZero
  have hText := Position.text_number h.digits h.nonempty h.first
  rw [hZero] at hText
  exact h.first (hText ▸ rfl)

theorem target_of_not_isPlace (hSome : name ≠ []) (h : ¬ IsPlace name) :
    target name = .text (String.ofList name) := by
  rw [target, if_neg (by simpa using hSome), if_neg]
  intro hNumber
  rw [Bool.and_eq_true, Bool.and_eq_true, bne_iff_ne, decide_eq_true_iff] at hNumber
  obtain ⟨⟨hAll, hFirst⟩, hFits⟩ := hNumber
  exact h ⟨List.all_eq_true.mp hAll, hSome, hFirst, hFits⟩

theorem placeAt_of_not_closing
    (h : (windowOf rest)[runLength Char.isDigit (windowOf rest)]? ≠ some '}'.toUInt8) :
    placeAt (String.ofList rest) (windowOf rest) = pure none := by
  rw [placeAt]
  by_cases hSome : 0 < runLength Char.isDigit (windowOf rest)
  · obtain ⟨byte, hByte, _⟩ := exists_byteAt_of_runLength_pos hSome
    rw [if_pos hSome, hByte, pure_bind, if_neg (mt And.right h)]
  · rw [if_neg hSome]

theorem placeAt_of_digits (hDigits : ∀ c ∈ name, c.isDigit = true) (hSome : name ≠ [])
    (hFits : name.length ≤ maxPlaceholder) :
    placeAt (String.ofList (name ++ '}' :: after)) (windowOf (name ++ '}' :: after)) =
      if name.head? = some '0' then pure none
      else if Position.number name < UInt64.size then do
        return some (.index (← minus (Position.number name) 1), name.length + 1)
      else pure none := by
  have hRun : runLength Char.isDigit (windowOf (name ++ '}' :: after)) = name.length :=
    runLength_windowOf_append isNarrow_isDigit rfl hDigits hFits
  have hClosing : (windowOf (name ++ '}' :: after))[name.length]? = some '}'.toUInt8 :=
    closing_windowOf_append isNarrow_isDigit rfl hDigits hFits
  have hLength : 0 < name.length := List.length_pos_iff.mpr hSome
  obtain ⟨byte, hByte, hFirst⟩ := exists_byteAt_of_runLength_pos (hRun.symm ▸ hLength)
  have hZero : byte = '0'.toUInt8 ↔ name.head? = some '0' := by
    have hHead : (name ++ '}' :: after).head? = name.head? := by
      rw [List.head?_append, List.head?_eq_some_head hSome, Option.some_or]
    rw [← hHead, ← head?_windowOf_eq_some_iff rfl, hFirst, Option.some.injEq]
  rw [placeAt, hRun, if_pos hLength, hByte, pure_bind]
  by_cases hLeading : name.head? = some '0'
  · rw [if_pos hLeading, if_neg fun hBoth => hBoth.1 (hZero.mpr hLeading)]
  · rw [if_neg hLeading, if_pos ⟨mt hZero.mp hLeading, hClosing⟩,
      cut_start_of_isNarrow isNarrow_isDigit hDigits, pure_bind, String.toList_ofList]

theorem placeAt_of_isPlace (h : IsPlace name) (hFits : name.length ≤ maxPlaceholder) :
    placeAt (String.ofList (name ++ '}' :: after)) (windowOf (name ++ '}' :: after)) =
      pure (some (.index (Position.number name - 1), name.length + 1)) := by
  rw [placeAt_of_digits h.digits h.nonempty hFits, if_neg h.first, if_pos h.fits,
    minus_of_le h.number_pos]
  rfl

theorem isRun_of_digits (h : ∀ c ∈ name, c.isDigit = true) (hFits : name.length ≤ maxPlaceholder) :
    IsRun name :=
  isRun_iff.mpr ⟨fun c hMem => isPlaceholderChar_of_isDigit (h c hMem), hFits⟩

theorem placeAt_of_not_isPlace (hRun : IsRun name) (hSome : name ≠ []) (h : ¬ IsPlace name) :
    placeAt (String.ofList (name ++ '}' :: after)) (windowOf (name ++ '}' :: after)) =
      pure none := by
  by_cases hDigits : ∀ c ∈ name, c.isDigit = true
  · rw [placeAt_of_digits hDigits hSome (isRun_iff.mp hRun).2]
    split
    · rfl
    split
    · rename_i hFirst hNumber
      exact absurd ⟨hDigits, hSome, hFirst, hNumber⟩ h
    · rfl
  · refine placeAt_of_not_closing fun hClosing => hDigits ?_
    obtain ⟨other, more, hText, hOther, hFits⟩ :=
      exists_of_closing_windowOf isNarrow_isDigit hClosing
    have hFound := placeholder?_eq_some_iff.mpr ⟨hText, isRun_of_digits hOther hFits⟩
    cases (placeholder?_eq_some_iff.mpr ⟨rfl, hRun⟩).symm.trans hFound
    exact hOther

theorem pathAt_of_isRun (hRun : IsRun name) (hSome : name ≠ []) :
    pathAt (String.ofList (name ++ '}' :: after)) (windowOf (name ++ '}' :: after)) =
      pure (some (.text (String.ofList name), name.length + 1)) := by
  obtain ⟨hChars, hFits⟩ := isRun_iff.mp hRun
  have hLength : 0 < name.length := List.length_pos_iff.mpr hSome
  have hClosing : (windowOf (name ++ '}' :: after))[name.length]? = some '}'.toUInt8 :=
    closing_windowOf_append isNarrow_isPlaceholderChar rfl hChars hFits
  rw [pathAt, runLength_windowOf_append isNarrow_isPlaceholderChar rfl hChars hFits,
    if_pos ⟨hLength, hClosing⟩, cut_start_of_isNarrow isNarrow_isPlaceholderChar hChars]
  rfl

theorem classify_of_isRun (hRun : IsRun name) :
    classify (String.ofList (name ++ '}' :: after)) (windowOf (name ++ '}' :: after)) =
      pure (some (target name, name.length + 1)) := by
  by_cases hSome : name = []
  · subst hSome
    have hNone {p : Char → Bool} (hNarrow : IsNarrow p) (hBrace : p '}' = false) :
        runLength p (windowOf ([] ++ '}' :: after)) = 0 :=
      runLength_windowOf_append hNarrow hBrace nofun (Nat.zero_le _)
    have hDigits := hNone isNarrow_isDigit rfl
    have hChars := hNone isNarrow_isPlaceholderChar rfl
    have hBrace : (windowOf ([] ++ '}' :: after)).head? = some '}'.toUInt8 :=
      (head?_windowOf_eq_some_iff rfl).mpr rfl
    rw [classify, placeAt, hDigits, if_neg (Nat.lt_irrefl 0), pure_bind, pathAt,
      hChars, if_neg fun hBoth => Nat.lt_irrefl 0 hBoth.1, pure_bind, if_pos hBrace]
    rfl
  · by_cases hPlace : IsPlace name
    · rw [classify, placeAt_of_isPlace hPlace (isRun_iff.mp hRun).2,
        target_of_number hSome hPlace.digits hPlace.first hPlace.fits]
      rfl
    · rw [classify, placeAt_of_not_isPlace hRun hSome hPlace, pure_bind, pathAt_of_isRun hRun hSome,
        target_of_not_isPlace hSome hPlace]
      rfl

theorem classify_of_not_closes (h : ¬ Closes rest) :
    classify (String.ofList rest) (windowOf rest) = pure none := by
  have hDigits : (windowOf rest)[runLength Char.isDigit (windowOf rest)]? ≠ some '}'.toUInt8 := by
    intro hClosing
    obtain ⟨name, after, hRest, hName, hFits⟩ :=
      exists_of_closing_windowOf isNarrow_isDigit hClosing
    exact h ⟨name, after, hRest, isRun_of_digits hName hFits⟩
  have hChars : (windowOf rest)[runLength isPlaceholderChar (windowOf rest)]? ≠
      some '}'.toUInt8 := by
    intro hClosing
    obtain ⟨name, after, hRest, hRun⟩ :=
      exists_of_closing_windowOf isNarrow_isPlaceholderChar hClosing
    exact h ⟨name, after, hRest, isRun_iff.mpr hRun⟩
  have hBrace : (windowOf rest).head? ≠ some '}'.toUInt8 := by
    rw [Ne, head?_windowOf_eq_some_iff rfl]
    intro hHead
    obtain ⟨after, rfl⟩ := List.head?_eq_some_iff.mp hHead
    exact h ⟨[], after, rfl, isRun_iff.mpr ⟨nofun, Nat.zero_le _⟩⟩
  rw [classify, placeAt_of_not_closing hDigits, pure_bind, pathAt, if_neg (mt And.right hChars),
    pure_bind, if_neg hBrace]

theorem placeholderAt_of_stands {template : String} {offset : Nat}
    (h : Stands template offset rest) :
    placeholderAt template offset = classify (String.ofList rest) (windowOf rest) := by
  rw [placeholderAt, cut_rest h, pure_bind, window_eq_pure, pure_bind]

end Placeholders

theorem valueAt_eq_pure (source : Value) (path : Path) :
    valueAt source path = pure (source.get? path) := by
  have hKeys : keysOf path = pure path.keys? := by
    cases path with
    | text text =>
      rw [keysOf, Path.scan_eq_pure]
      rfl
    | _ => rfl
  rw [valueAt, hKeys]
  rfl

/-- What comes of the rest of a template, where a text is written and placeholders may have been
replaced before. -/
def filledFrom (source : Value) (text : String) (replaced : Bool) (rest : List Char) :
    Except Path.Malformed (String × Bool) :=
  (fill source (pieces rest)).map fun filled =>
    (text ++ String.ofList filled, replaced || (pieces rest).any isPlaceholder)

section Filling

variable {source : Value} {text : String} {replaced : Bool} {c : Char}
  {before after rest : List Char}

theorem filledFrom_nil : filledFrom source text replaced [] = .ok (text, replaced) := by
  rw [filledFrom, pieces, fill]
  show Except.ok (text ++ "", replaced || false) = .ok (text, replaced)
  rw [String.append_empty, Bool.or_false]

theorem filledFrom_literal (h : pieces (c :: rest) = .literal c :: pieces rest) :
    filledFrom source text replaced (c :: rest) =
      filledFrom source (text ++ String.singleton c) replaced rest := by
  rw [filledFrom, filledFrom, h, fill]
  cases fill source (pieces rest) with
  | error malformed => rfl
  | ok filled =>
    show Except.ok (text ++ String.ofList (c :: filled), _) = Except.ok (_ ++ _, _)
    rw [String.ofList_cons, String.append_assoc]
    rfl

theorem filledFrom_append (h : '{' ∉ before) (rest : List Char) :
    filledFrom source text replaced (before ++ rest) =
      filledFrom source (text ++ String.ofList before) replaced rest := by
  induction before generalizing text with
  | nil => rw [List.nil_append, String.ofList_nil, String.append_empty]
  | cons c more ih =>
    obtain ⟨hHere, hMore⟩ := not_or.mp (mt List.mem_cons.mpr h)
    rw [List.cons_append, filledFrom_literal (pieces_cons_of_ne (Ne.symm hHere) _), ih hMore,
      String.ofList_cons, String.append_assoc]

theorem filledFrom_of_isRun {run : List Char} (h : IsRun run) :
    filledFrom source text replaced ('{' :: (run ++ '}' :: after)) =
      (source.get? (target run)).bind fun found =>
        filledFrom source (text ++ found.elim "null" Value.display) true after := by
  rw [filledFrom, pieces_of_closes h, fill]
  cases source.get? (target run) with
  | error malformed => rfl
  | ok found =>
    have hShown : (found.getD .null).display = found.elim "null" Value.display := by
      cases found <;> rfl
    show Except.map _ (do return _ ++ (← fill source (pieces after))) = filledFrom _ _ _ _
    rw [filledFrom, hShown]
    cases fill source (pieces after) with
    | error malformed => rfl
    | ok filled =>
      show Except.ok (text ++ String.ofList (_ ++ filled), replaced || true) =
        Except.ok (text ++ _ ++ String.ofList filled, true)
      rw [String.ofList_append, String.ofList_toList, String.append_assoc, Bool.or_true]

def Fills (source : Value) (template : String) (state : Filling)
    (answer : Except Path.Malformed (String × Bool)) : Prop :=
  ∃ rest, Stands template state.offset rest ∧
    answer = filledFrom source state.text state.replaced rest

section Passes

variable {template : String} {offset : Nat}

theorem sub_lt_sub_of_brace (h : Stands template offset (before ++ '{' :: after)) {next : Nat}
    (hNext : offset + (width before + 1) ≤ next) :
    template.utf8ByteSize - next < template.utf8ByteSize - offset := by
  have hLess := h.append.sub_lt_sub hNext
  omega

/-- Up to the next opening brace a template stands for itself. -/
theorem fillPass_of_brace (source : Value) (text : String) (replaced : Bool)
    (hBefore : '{' ∉ before) (h : Stands template offset (before ++ '{' :: after)) :
    fillPass source template ⟨offset, text, replaced⟩ = do
      match ← classify (String.ofList after) (windowOf after) with
      | none =>
        return .again ⟨offset + (width before + 1), text ++ String.ofList before ++ "\x7b",
          replaced⟩
      | some (path, past) =>
        match source.get? path with
        | .error malformed => return .done (.error malformed)
        | .ok found =>
          return .again ⟨offset + (width before + 1) + past,
            text ++ String.ofList before ++ found.elim "null" Value.display, true⟩ := by
  have hLess : offset < template.utf8ByteSize :=
    Nat.lt_of_sub_pos (Nat.zero_lt_of_lt (sub_lt_sub_of_brace h (Nat.le_refl _)))
  have hAfter : Stands template (offset + (width before + 1)) after := h.append.cons
  rw [fillPass, if_pos hLess, cut_rest h, pure_bind, offsetOf?_append_cons hBefore]
  dsimp only
  rw [cut_start, pure_bind, placeholderAt_of_stands hAfter]
  simp only [valueAt_eq_pure, pure_bind]

theorem advances_of_isRun {run : List Char} (hBefore : '{' ∉ before) (hRun : IsRun run)
    (h : Stands template offset (before ++ '{' :: (run ++ '}' :: after))) :
    Advances (template.utf8ByteSize - ·.offset) (fillPass source template) (Fills source template)
      ⟨offset, text, replaced⟩
      (filledFrom source text replaced (before ++ '{' :: (run ++ '}' :: after))) := by
  have hPass := fillPass_of_brace source text replaced hBefore h
  rw [classify_of_isRun hRun, pure_bind] at hPass
  dsimp only at hPass
  rw [filledFrom_append hBefore, filledFrom_of_isRun hRun]
  cases hFound : source.get? (target run) with
  | error malformed =>
    rw [hFound] at hPass
    exact .done hPass
  | ok found =>
    rw [hFound] at hPass
    have hAfter : Stands template (offset + (width before + 1) + (run.length + 1)) after := by
      rw [← utf8ByteSize_of_isPlaceholderChar (isRun_iff.mp hRun).1]
      exact h.append.cons.append.cons
    exact .again hPass ⟨after, hAfter, rfl⟩ (sub_lt_sub_of_brace h (Nat.le_add_right _ _))

theorem advances_of_not_closes (hBefore : '{' ∉ before) (hAfter : ¬ Closes after)
    (h : Stands template offset (before ++ '{' :: after)) :
    Advances (template.utf8ByteSize - ·.offset) (fillPass source template) (Fills source template)
      ⟨offset, text, replaced⟩ (filledFrom source text replaced (before ++ '{' :: after)) := by
  have hPass := fillPass_of_brace source text replaced hBefore h
  rw [classify_of_not_closes hAfter, pure_bind] at hPass
  rw [filledFrom_append hBefore, filledFrom_literal (pieces_of_not_closes hAfter)]
  exact .again hPass ⟨after, h.append.cons, rfl⟩ (sub_lt_sub_of_brace h (Nat.le_refl _))

theorem fillPass_of_not_mem (hNone : '{' ∉ rest) (h : Stands template offset rest) :
    fillPass source template ⟨offset, text, replaced⟩ =
      pure (.done (.ok (text ++ String.ofList rest, replaced))) := by
  by_cases hLess : offset < template.utf8ByteSize
  · rw [fillPass, if_pos hLess, cut_rest h, pure_bind, offsetOf?_of_not_mem hNone]
  · have hSize := h.offset_add_width
    have hRest : rest = [] := by
      cases rest with
      | nil => rfl
      | cons c more =>
        have hChar := c.utf8Size_pos
        rw [width_cons] at hSize
        omega
    rw [fillPass, if_neg hLess, hRest, String.ofList_nil, String.append_empty]

theorem advances_fillPass {state : Filling} {answer : Except Path.Malformed (String × Bool)}
    (h : Fills source template state answer) :
    Advances (template.utf8ByteSize - ·.offset) (fillPass source template) (Fills source template)
      state answer := by
  obtain ⟨offset, text, replaced⟩ := state
  obtain ⟨rest, hStands, rfl⟩ := h
  by_cases hBrace : '{' ∈ rest
  · obtain ⟨before, after, rfl, hBefore⟩ := List.eq_append_cons_of_mem hBrace
    by_cases hAfter : Closes after
    · obtain ⟨run, tail, rfl, hRun⟩ := hAfter
      exact advances_of_isRun hBefore hRun hStands
    · exact advances_of_not_closes hBefore hAfter hStands
  · refine .done ((fillPass_of_not_mem hBrace hStands).trans ?_)
    have hRest : filledFrom source text replaced (rest ++ []) = filledFrom source _ replaced [] :=
      filledFrom_append hBrace []
    rw [List.append_nil, filledFrom_nil] at hRest
    rw [hRest]

end Passes

end Filling

theorem loop_fillPass (source : Value) (template : String) :
    loop (template.utf8ByteSize - ·.offset) (fillPass source template) ⟨0, "", false⟩ =
      pure (filledFrom source "" false template.toList) :=
  loop_eq_pure (Fills source template) (fun _ _ => advances_fillPass)
    ⟨template.toList, stands_zero template, rfl⟩

theorem scan_eq_pure (template : String) (args : List Value) :
    scan template args = pure (render template args) := by
  rw [scan, loop_fillPass, pure_bind, render, filledFrom]
  cases fill (source args) (pieces template.toList) with
  | error malformed => rfl
  | ok filled =>
    show pure (Except.ok (if (false || _) = true then "" ++ String.ofList filled
      else withTrailer _ ("" ++ String.ofList filled))) = _
    rw [Bool.false_or, String.empty_append]
    rfl

theorem malformed_of_render {template : String} {args : List Value} {malformed : Path.Malformed}
    (h : render template args = .error malformed) : malformed.text ≠ "" := by
  obtain ⟨marks, hReads⟩ := exists_reads template.toList
  rcases isSound_or_isFirstMalformed marks with hSound | ⟨run, other, hFirst⟩
  · obtain ⟨text, hText⟩ := exists_render_eq_ok hReads hSound args
    cases hText.symm.trans h
  · cases (render_eq_error hReads hFirst args).symm.trans h
    obtain ⟨_, _, _, _, hRun⟩ := hFirst
    obtain ⟨hText, hSome⟩ := malformed_of_tokenize hRun
    rwa [hText]

theorem braces_message (fault : Path.Fault) (args : List Value) :
    Asked.braces ⟨fault.message, args⟩ = 0 :=
  List.count_eq_zero.mpr (brace_not_mem_message fault)

theorem braces_pos_of_render {template : String} {args : List Value} {malformed : Path.Malformed}
    (h : render template args = .error malformed) : 0 < Asked.braces ⟨template, args⟩ := by
  refine List.count_pos_iff.mpr (Classical.byContradiction fun hNone => ?_)
  cases (render_of_not_mem hNone args).symm.trans h

def Answers (asked : Asked) (text : String) : Prop := text = interpolate asked.template asked.args

theorem advances_reportPass {asked : Asked} {text : String} (h : Answers asked text) :
    Advances Asked.braces reportPass Answers asked text := by
  obtain ⟨template, args⟩ := asked
  subst h
  cases hRender : render template args with
  | ok text =>
    refine .done ?_
    rw [reportPass, scan_eq_pure, hRender, interpolate, hRender]
    rfl
  | error malformed =>
    have hSome := malformed_of_render hRender
    have hPass : reportPass ⟨template, args⟩ =
        pure (.again ⟨malformed.fault.message, [.string malformed.text]⟩) := by
      rw [reportPass, scan_eq_pure, hRender]
      rfl
    refine .again hPass ?_ ?_
    · rw [Answers, interpolate, interpolate, hRender, render_message malformed.fault hSome]
      exact if_neg (mt String.isEmpty_iff.mp hSome)
    · rw [braces_message]
      exact braces_pos_of_render hRender

theorem report_eq_pure (template : String) (args : List Value) :
    report template args = pure (interpolate template args) :=
  loop_eq_pure Answers (fun _ _ => advances_reportPass) rfl

/-- No template, path text, name or suffix makes a breach: nothing is cut but between characters, no
byte is read that is not there and nothing is taken from a smaller number, in a report of what is
malformed neither. The scanners of templates and of path text end. -/
theorem scanners_without_breach :
    (∀ template args, scan template args = pure (render template args) ∧
      report template args = pure (interpolate template args) ∧
      ∃ passes ≤ template.utf8ByteSize + 1, ∃ filled,
        Runs (fillPass (source args) template) passes ⟨0, "", false⟩ filled) ∧
    (∀ text, Path.scan text = pure (Path.tokenize text) ∧
      ∃ passes ≤ 2 * text.utf8ByteSize + 1, ∃ keys,
        Runs (Path.scanPass text) passes ⟨0, true, []⟩ keys) ∧
    ∀ name suffix, Name.scan name suffix = pure (Name.shorten name suffix) := by
  refine ⟨fun template args => ⟨scan_eq_pure template args, report_eq_pure template args, ?_⟩,
    fun text => ⟨Path.scan_eq_pure text, ?_⟩, Name.scan_eq_pure⟩
  · obtain ⟨passes, hPasses, hRuns⟩ := exists_runs_of_loop (loop_fillPass (source args) template)
    exact ⟨passes, hPasses, _, hRuns⟩
  · obtain ⟨passes, hPasses, hRuns⟩ := exists_runs_of_loop (Path.loop_scanPass text)
    exact ⟨passes, hPasses, _, hRuns⟩

end Wiring.Template
