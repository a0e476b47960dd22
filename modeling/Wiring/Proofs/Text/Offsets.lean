/-! # Text by byte offsets

A reader that goes by byte offsets may cut a text only at the boundaries of characters, read only
bytes that are there, take no number from a smaller one, and leave less to do with each pass of a
loop. Anything else is a breach, and nothing comes after it.
-/
namespace Wiring.Text
set_option autoImplicit false

inductive Breach where
  | cut (text : String) (start stop : Nat)
  | window (count size : Nat)
  | byte (index size : Nat)
  | difference (first second : Nat)
  | stall
  deriving DecidableEq

abbrev Checked := Except Breach

/-- The text from one offset to another. Both have to be boundaries of characters. -/
def cut (text : String) (start stop : Nat) : Checked String :=
  if h : start ≤ stop ∧ String.Pos.Raw.IsValid text ⟨start⟩ ∧
      String.Pos.Raw.IsValid text ⟨stop⟩ then
    return text.extract (text.pos ⟨start⟩ h.2.1) (text.pos ⟨stop⟩ h.2.2)
  else throw (.cut text start stop)

def bytes (text : String) : List UInt8 := text.toByteArray.data.toList

/-- The first bytes of a text. The last of them may stand within a character. -/
def window (text : String) (count : Nat) : Checked (List UInt8) :=
  if count ≤ (bytes text).length then return (bytes text).take count
  else throw (.window count (bytes text).length)

def byteAt (bytes : List UInt8) (index : Nat) : Checked UInt8 :=
  if h : index < bytes.length then return bytes[index] else throw (.byte index bytes.length)

def minus (first second : Nat) : Checked Nat :=
  if second ≤ first then return first - second else throw (.difference first second)

theorem minus_of_le {first second : Nat} (h : second ≤ first) :
    minus first second = pure (first - second) := if_pos h

def width (chars : List Char) : Nat := (String.ofList chars).utf8ByteSize

@[simp]
theorem width_nil : width [] = 0 := rfl

@[simp]
theorem width_append (first second : List Char) :
    width (first ++ second) = width first + width second := by
  rw [width, String.ofList_append, String.utf8ByteSize_append]
  rfl

@[simp]
theorem width_cons (c : Char) (rest : List Char) : width (c :: rest) = c.utf8Size + width rest := by
  rw [width, String.ofList_cons, String.utf8ByteSize_append, String.utf8ByteSize_singleton]
  rfl

theorem width_toList (text : String) : width text.toList = text.utf8ByteSize := by
  rw [width, String.ofList_toList]

/-- The offset is a boundary of the text, and the rest stands behind it. -/
def Stands (text : String) (offset : Nat) (rest : List Char) : Prop :=
  ∃ before, text.toList = before ++ rest ∧ offset = width before

theorem stands_zero (text : String) : Stands text 0 text.toList := ⟨[], rfl, rfl⟩

section Boundaries

variable {text : String} {offset : Nat} {c : Char} {part rest : List Char}

theorem stands_iff : Stands text offset rest ↔
    ∃ before, text = before ++ String.ofList rest ∧ offset = before.utf8ByteSize := by
  constructor
  · rintro ⟨before, hText, rfl⟩
    refine ⟨String.ofList before, ?_, rfl⟩
    rw [← String.ofList_append, ← hText, String.ofList_toList]
  · rintro ⟨before, rfl, rfl⟩
    refine ⟨before.toList, ?_, (width_toList before).symm⟩
    rw [String.toList_append, String.toList_ofList]

theorem Stands.offset_add_width (h : Stands text offset rest) :
    offset + width rest = text.utf8ByteSize := by
  obtain ⟨before, hText, rfl⟩ := h
  rw [← width_append, ← hText, width_toList]

theorem Stands.append (h : Stands text offset (part ++ rest)) :
    Stands text (offset + width part) rest := by
  obtain ⟨before, hText, rfl⟩ := h
  exact ⟨before ++ part, by rw [hText, List.append_assoc], (width_append before part).symm⟩

theorem Stands.cons (h : Stands text offset (c :: rest)) :
    Stands text (offset + c.utf8Size) rest := by
  have hNext : Stands text (offset + width [c]) rest := Stands.append h
  simpa using hNext

theorem Stands.sub_lt_sub (h : Stands text offset (c :: rest)) {next : Nat}
    (hNext : offset + c.utf8Size ≤ next) :
    text.utf8ByteSize - next < text.utf8ByteSize - offset := by
  have hSize := h.offset_add_width
  have hChar := c.utf8Size_pos
  rw [width_cons] at hSize
  omega

theorem Stands.isValid (h : Stands text offset rest) :
    String.Pos.Raw.IsValid text ⟨offset⟩ := by
  obtain ⟨before, rfl, rfl⟩ := stands_iff.mp h
  exact String.Pos.Raw.isValid_iff_exists_append.mpr ⟨before, String.ofList rest, rfl, rfl⟩

end Boundaries

section Extracts

variable {text : String} {start stop : text.Pos}

theorem extract_of_splits {before taken rest : String}
    (hStart : start.Splits before (taken ++ rest)) (hStop : stop.Splits (before ++ taken) rest) :
    text.extract start stop = taken := by
  have hText : text.toByteArray =
      before.toByteArray ++ (taken.toByteArray ++ rest.toByteArray) := by
    rw [← String.toByteArray_append, ← String.toByteArray_append, ← hStart.eq_append]
  rw [← String.toByteArray_inj, String.toByteArray_extract, hText, hStart.offset_eq_rawEndPos,
    hStop.offset_eq_rawEndPos, String.byteIdx_rawEndPos, String.byteIdx_rawEndPos,
    String.utf8ByteSize_append, ← String.size_toByteArray, ← String.size_toByteArray]
  exact (ByteArray.extract_append_size_add (i := 0)).trans (ByteArray.extract_append_eq_left rfl)

theorem splits_extract (start stop : text.Pos) (h : start ≤ stop) : ∃ before rest,
    start.Splits before (text.extract start stop ++ rest) ∧
      stop.Splits (before ++ text.extract start stop) rest := by
  have hStart := start.splits
  have hStop := stop.splits
  have hBefore : (text.sliceTo stop).copy =
      (text.sliceTo start).copy ++ text.extract start stop := by
    rw [← String.toByteArray_inj, String.toByteArray_append, String.toByteArray_extract,
      hStop.toByteArray_left_eq, hStart.toByteArray_left_eq]
    exact ByteArray.extract_eq_extract_append_extract _ (Nat.zero_le _) h
  rw [hBefore] at hStop
  refine ⟨_, _, ⟨?_, hStart.offset_eq_rawEndPos⟩, hStop⟩
  rw [← String.append_assoc]
  exact hStop.eq_append

end Extracts

section Cuts

variable {text : String} {offset : Nat} {part rest : List Char}

/-- A cut is no breach exactly if whole characters stand between its offsets. -/
theorem cut_eq_pure_iff {start stop : Nat} {taken : String} :
    cut text start stop = pure taken ↔
      ∃ rest, Stands text start (taken.toList ++ rest) ∧ stop = start + taken.utf8ByteSize := by
  constructor
  · intro h
    rw [cut] at h
    split at h
    · rename_i hBoundaries
      obtain ⟨before, rest, hStart, hStop⟩ := splits_extract (text.pos ⟨start⟩ hBoundaries.2.1)
        (text.pos ⟨stop⟩ hBoundaries.2.2) hBoundaries.1
      cases h
      refine ⟨rest.toList, stands_iff.mpr ⟨before, ?_, ?_⟩, ?_⟩
      · rw [← String.toList_append, String.ofList_toList]
        exact hStart.eq_append
      · exact congrArg String.Pos.Raw.byteIdx hStart.offset_eq_rawEndPos
      · have hBefore : start = before.utf8ByteSize :=
          congrArg String.Pos.Raw.byteIdx hStart.offset_eq_rawEndPos
        calc stop = (before ++ text.extract _ _).utf8ByteSize :=
              congrArg String.Pos.Raw.byteIdx hStop.offset_eq_rawEndPos
          _ = before.utf8ByteSize + _ := String.utf8ByteSize_append
          _ = start + _ := congrArg (· + _) hBefore.symm
    · cases h
  · rintro ⟨rest, hStart, rfl⟩
    have hStop : Stands text (start + taken.utf8ByteSize) rest := by
      rw [← width_toList]
      exact hStart.append
    rw [cut, dif_pos ⟨Nat.le_add_right _ _, hStart.isValid, hStop.isValid⟩]
    obtain ⟨before, hText, rfl⟩ := stands_iff.mp hStart
    rw [String.ofList_append, String.ofList_toList] at hText
    refine congrArg pure (extract_of_splits ⟨hText, rfl⟩ ⟨?_, ?_⟩)
    · rw [hText, String.append_assoc]
    · exact congrArg String.Pos.Raw.mk (String.utf8ByteSize_append).symm

example : window "äb" 1 = pure [0xC3] ∧ cut "äb" 0 1 = throw (.cut "äb" 0 1) ∧
    cut "äb" 0 2 = pure "ä" := ⟨rfl, rfl, rfl⟩

theorem cut_of_stands (h : Stands text offset (part ++ rest)) :
    cut text offset (offset + width part) = pure (String.ofList part) := by
  rw [cut_eq_pure_iff, String.toList_ofList]
  exact ⟨rest, h, rfl⟩

theorem cut_start (part rest : List Char) :
    cut (String.ofList (part ++ rest)) 0 (width part) = pure (String.ofList part) := by
  have hStands := stands_zero (String.ofList (part ++ rest))
  rw [String.toList_ofList] at hStands
  rw [← Nat.zero_add (width part)]
  exact cut_of_stands hStands

theorem cut_rest (h : Stands text offset rest) :
    cut text offset text.utf8ByteSize = pure (String.ofList rest) := by
  rw [← h.offset_add_width]
  have hAll : Stands text offset (rest ++ []) := by rwa [List.append_nil]
  exact cut_of_stands hAll

end Cuts

section Bytes

variable {p : Char → Bool} {c : Char} {first rest : List Char}

theorem bytes_ofList (chars : List Char) :
    bytes (String.ofList chars) = chars.flatMap String.utf8EncodeChar := by
  rw [bytes, String.toByteArray_ofList, List.utf8Encode, List.toList_data_toByteArray]

theorem window_of_le {text : String} {count : Nat} (h : count ≤ text.utf8ByteSize) :
    window text count = pure ((bytes text).take count) := if_pos h

theorem bytes_cons_of_utf8Size_eq_one (h : c.utf8Size = 1) :
    bytes (String.ofList (c :: rest)) = c.toUInt8 :: bytes (String.ofList rest) := by
  rw [bytes_ofList, bytes_ofList, List.flatMap_cons, String.utf8EncodeChar_eq_singleton h]
  rfl

theorem ofUInt8_toUInt8 (h : c.utf8Size = 1) : Char.ofUInt8 c.toUInt8 = c := by
  rw [Char.utf8Size_eq_one_iff, UInt32.le_iff_toNat_le] at h
  apply Char.ext
  apply UInt32.toNat_inj.mp
  show c.val.toNat % 256 = c.val.toNat
  exact Nat.mod_eq_of_lt (Nat.lt_of_le_of_lt h (by decide))

theorem utf8Size_ofUInt8_ne_one (h : c.utf8Size ≠ 1) {byte : UInt8}
    (hByte : byte ∈ String.utf8EncodeChar c) : (Char.ofUInt8 byte).utf8Size ≠ 1 := by
  rw [Ne, Char.utf8Size_eq_one_iff, UInt32.le_iff_toNat_le] at h ⊢
  change ¬ c.val.toNat ≤ 127 at h
  show ¬ byte.toNat ≤ 127
  simp only [String.utf8EncodeChar, if_neg h] at hByte
  split at hByte
  · simp only [List.mem_cons, List.not_mem_nil, or_false] at hByte
    rcases hByte with rfl | rfl <;> rw [UInt8.toNat_ofNat'] <;> omega
  split at hByte
  · simp only [List.mem_cons, List.not_mem_nil, or_false] at hByte
    rcases hByte with rfl | rfl | rfl <;> rw [UInt8.toNat_ofNat'] <;> omega
  · simp only [List.mem_cons, List.not_mem_nil, or_false] at hByte
    rcases hByte with rfl | rfl | rfl | rfl <;> rw [UInt8.toNat_ofNat'] <;> omega

/-- Only characters of one byte are such. -/
def IsNarrow (p : Char → Bool) : Prop := ∀ c, p c = true → c.utf8Size = 1

theorem any_head?_bytes (h : IsNarrow p) (chars : List Char) :
    (bytes (String.ofList chars)).head?.any (p ∘ Char.ofUInt8) = chars.head?.any p := by
  cases chars with
  | nil => rfl
  | cons c rest =>
    by_cases hOne : c.utf8Size = 1
    · rw [bytes_cons_of_utf8Size_eq_one hOne]
      exact congrArg p (ofUInt8_toUInt8 hOne)
    · obtain ⟨byte, more, hBytes⟩ :=
        List.exists_cons_of_ne_nil (String.utf8EncodeChar_ne_nil (c := c))
      have hByte : byte ∈ String.utf8EncodeChar c := hBytes ▸ List.mem_cons_self
      have hNot : p (Char.ofUInt8 byte) = false :=
        Bool.eq_false_iff.mpr fun hTrue => utf8Size_ofUInt8_ne_one hOne hByte (h _ hTrue)
      have hChar : p c = false := Bool.eq_false_iff.mpr fun hTrue => hOne (h c hTrue)
      rw [bytes_ofList, List.flatMap_cons, hBytes]
      exact hNot.trans hChar.symm

theorem head?_bytes_eq_some_iff (h : c.utf8Size = 1) {chars : List Char} :
    (bytes (String.ofList chars)).head? = some c.toUInt8 ↔ chars.head? = some c := by
  constructor
  · intro hByte
    have hOnly : IsNarrow (· == c) := fun d hSame => (eq_of_beq hSame).symm ▸ h
    have hAny := any_head?_bytes hOnly chars
    rw [hByte, Option.any_some, Function.comp_apply, ofUInt8_toUInt8 h, beq_self_eq_true] at hAny
    cases chars with
    | nil => cases hAny
    | cons d rest => exact congrArg some (eq_of_beq hAny.symm)
  · intro hHead
    obtain ⟨rest, rfl⟩ := List.head?_eq_some_iff.mp hHead
    rw [bytes_cons_of_utf8Size_eq_one h]
    rfl

theorem takeWhile_bytes (h : IsNarrow p) (chars : List Char) :
    (bytes (String.ofList chars)).takeWhile (p ∘ Char.ofUInt8) =
      bytes (String.ofList (chars.takeWhile p)) := by
  induction chars with
  | nil => rfl
  | cons c rest ih =>
    cases hHere : p c with
    | true =>
      have hOne := h c hHere
      have hByte : (p ∘ Char.ofUInt8) c.toUInt8 = true := by
        rwa [Function.comp_apply, ofUInt8_toUInt8 hOne]
      rw [List.takeWhile_cons_of_pos hHere, bytes_cons_of_utf8Size_eq_one hOne,
        bytes_cons_of_utf8Size_eq_one hOne, List.takeWhile_cons_of_pos hByte, ih]
    | false =>
      have hFirst := any_head?_bytes h (c :: rest)
      rw [List.takeWhile_cons_of_neg (Bool.eq_false_iff.mp hHere)]
      cases hBytes : bytes (String.ofList (c :: rest)) with
      | nil => rfl
      | cons byte more =>
        rw [hBytes] at hFirst
        exact List.takeWhile_cons_of_neg (Bool.eq_false_iff.mp (hFirst.trans hHere))

theorem length_bytes_of_isNarrow (hNarrow : IsNarrow p) (h : ∀ c ∈ first, p c = true) :
    (bytes (String.ofList first)).length = first.length := by
  induction first with
  | nil => rfl
  | cons c rest ih =>
    obtain ⟨hHere, hRest⟩ := List.forall_mem_cons.mp h
    rw [bytes_cons_of_utf8Size_eq_one (hNarrow c hHere), List.length_cons, ih hRest,
      List.length_cons]

theorem cut_start_of_isNarrow (hNarrow : IsNarrow p) (h : ∀ c ∈ first, p c = true)
    (rest : List Char) :
    cut (String.ofList (first ++ rest)) 0 first.length = pure (String.ofList first) := by
  have hWidth : width first = first.length := length_bytes_of_isNarrow hNarrow h
  rw [← hWidth]
  exact cut_start first rest

theorem bytes_append (first rest : List Char) :
    bytes (String.ofList (first ++ rest)) =
      bytes (String.ofList first) ++ bytes (String.ofList rest) := by
  rw [bytes_ofList, bytes_ofList, bytes_ofList, List.flatMap_append]

end Bytes

def offsetOf? (c : Char) (text : String) : Option Nat :=
  (text.find? c).map (·.offset.byteIdx)

theorem offsetOf?_of_not_mem {c : Char} {chars : List Char} (h : c ∉ chars) :
    offsetOf? c (String.ofList chars) = none := by
  have hNone : (String.ofList chars).find? c = none := by
    rw [String.find?_eq_find?_toSlice, Option.map_eq_none_iff, String.Slice.find?_eq_none_iff,
      ← String.contains_eq_contains_toSlice, String.contains_char_eq, String.toList_ofList]
    exact decide_eq_false h
  rw [offsetOf?, hNone]
  rfl

theorem offsetOf?_append_cons {c : Char} {before : List Char} (h : c ∉ before) (after : List Char) :
    offsetOf? c (String.ofList (before ++ c :: after)) = some (width before) := by
  have hStands : Stands (String.ofList (before ++ c :: after)) (width before) (c :: after) :=
    ⟨before, String.toList_ofList, rfl⟩
  have hFound : (String.ofList (before ++ c :: after)).find? c =
      some (String.pos _ ⟨width before⟩ hStands.isValid) := by
    rw [String.find?_char_eq_some_iff_splits]
    refine ⟨String.ofList before, String.ofList after, ⟨?_, rfl⟩, ?_⟩
    · rw [String.ofList_append, String.ofList_cons]
    · rwa [String.toList_ofList]
  rw [offsetOf?, hFound]
  rfl

section Loops

variable {σ α : Type}

inductive Pass (σ α : Type) where
  | again (state : σ)
  | done (answer : α)

/-- Passes from state to state, up to the first that is done. Each has to leave less to do than the
one before. -/
def loop (left : σ → Nat) (pass : σ → Checked (Pass σ α)) (state : σ) : Checked α := do
  match ← pass state with
  | .again next => if left next < left state then loop left pass next else throw .stall
  | .done answer => return answer
termination_by left state

/-- The passes from a state to an answer, whatever they leave to do. -/
inductive Runs (pass : σ → Checked (Pass σ α)) : (passes : Nat) → σ → α → Prop
  | done {state : σ} {answer : α} : pass state = pure (.done answer) → Runs pass 1 state answer
  | again {passes : Nat} {state next : σ} {answer : α} : pass state = pure (.again next) →
    Runs pass passes next answer → Runs pass (passes + 1) state answer

/-- A loop without a breach ends, after as many passes as there is to do at most. -/
theorem exists_runs_of_loop {left : σ → Nat} {pass : σ → Checked (Pass σ α)} {state : σ}
    {answer : α} (h : loop left pass state = pure answer) :
    ∃ passes ≤ left state + 1, Runs pass passes state answer := by
  induction state using (measure left).wf.induction with
  | h state ih =>
    rw [loop] at h
    cases hPass : pass state with
    | error breach =>
      rw [hPass] at h
      cases h
    | ok step =>
      rw [hPass] at h
      cases step with
      | done found =>
        cases h
        exact ⟨1, Nat.le_add_left _ _, .done hPass⟩
      | again next =>
        change (if left next < left state then loop left pass next else throw .stall) = _ at h
        split at h
        · rename_i hLess
          obtain ⟨passes, hPasses, hRuns⟩ := ih next hLess h
          exact ⟨passes + 1, by omega, .again hPass hRuns⟩
        · cases h

/-- A pass has the answer to which its state leads, or goes on to a state that leads to it as well
and leaves less to do. -/
inductive Advances (left : σ → Nat) (pass : σ → Checked (Pass σ α)) (Leads : σ → α → Prop)
    (state : σ) (answer : α) : Prop
  | done : pass state = pure (.done answer) → Advances left pass Leads state answer
  | again {next : σ} : pass state = pure (.again next) → Leads next answer →
    left next < left state → Advances left pass Leads state answer

theorem loop_eq_pure {left : σ → Nat} {pass : σ → Checked (Pass σ α)} (Leads : σ → α → Prop)
    (hPass : ∀ state answer, Leads state answer → Advances left pass Leads state answer)
    {state : σ} {answer : α} (h : Leads state answer) : loop left pass state = pure answer := by
  induction state using (measure left).wf.induction with
  | h state ih =>
    rw [loop]
    cases hPass state answer h with
    | done hDone =>
      rw [hDone]
      rfl
    | again hAgain hNext hLess =>
      rw [hAgain, pure_bind]
      dsimp only
      rw [if_pos hLess]
      exact ih _ hLess hNext

end Loops

end Wiring.Text
