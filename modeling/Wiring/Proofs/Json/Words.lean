import Wiring.Json.Printer
import Wiring.Json.Reader
import Wiring.Proofs.Value.Position

/-! # Words of JSON text

Strings and integers are read back as they were written, whatever text follows: a string ends with
its closing quote, and an integer where no character follows that a number may go on with.
-/
namespace Wiring.Json
set_option autoImplicit false

/-- A character that a string is read to begin with. -/
def cons? (c : Char) (read : Option (List Char × List Char)) : Option (List Char × List Char) :=
  read.map fun (tail, rest) => (c :: tail, rest)

theorem string?_of_escaped? {text rest : List Char} {c : Char} (fuel : Nat)
    (h : escaped? text = some (c, rest)) :
    string? (fuel + 1) ('\\' :: text) = cons? c (string? fuel rest) := by
  rw [string?, if_neg (by decide), if_pos rfl, h]
  show (string? fuel rest).bind (fun read => some (c :: read.1, read.2)) = _
  cases string? fuel rest <;> rfl

def shortEscapes : List Char := ['"', '\\', '\n', '\r', '\t', '\x08', '\x0c']

theorem escape_of_mem {c : Char} (h : c ∈ shortEscapes) :
    ∃ letter, escape c = ['\\', letter] ∧ ∀ rest, escaped? (letter :: rest) = some (c, rest) := by
  simp only [shortEscapes, List.mem_cons, List.not_mem_nil, or_false] at h
  rcases h with rfl | rfl | rfl | rfl | rfl | rfl | rfl <;> exact ⟨_, rfl, fun _ => rfl⟩

theorem escape_of_not_mem {c : Char} (h : c ∉ shortEscapes) :
    escape c = if c.toNat < 0x20 then
      ['\\', 'u', '0', '0', Nat.digitChar (c.toNat / 16), Nat.digitChar (c.toNat % 16)]
    else [c] := by
  simp only [shortEscapes, List.mem_cons, List.not_mem_nil, or_false, not_or] at h
  obtain ⟨hQuote, hBackslash, hNewline, hReturn, hTab, hBackspace, hFeed⟩ := h
  rw [escape, if_neg hQuote, if_neg hBackslash, if_neg hNewline, if_neg hReturn, if_neg hTab,
    if_neg hBackspace, if_neg hFeed]

theorem hexDigit?_digitChar : ∀ n < 16, hexDigit? (Nat.digitChar n) = some n := by decide

theorem unicode?_control {c : Char} (h : c.toNat < 0x20) (rest : List Char) :
    unicode? ('0' :: '0' :: Nat.digitChar (c.toNat / 16) :: Nat.digitChar (c.toNat % 16) :: rest) =
      some (c, rest) := by
  have hUnit : unit? ('0' :: '0' :: Nat.digitChar (c.toNat / 16) ::
      Nat.digitChar (c.toNat % 16) :: rest) = some (c.toNat, rest) := by
    rw [unit?, hexDigit?_digitChar _ (by omega), hexDigit?_digitChar _ (by omega)]
    show some (((16 * 0 + 0) * 16 + c.toNat / 16) * 16 + c.toNat % 16, rest) = _
    rw [show ((16 * 0 + 0) * 16 + c.toNat / 16) * 16 + c.toNat % 16 = c.toNat by omega]
  rw [unicode?, hUnit]
  show (if 0xDC00 ≤ c.toNat ∧ c.toNat < 0xE000 then none
    else if 0xD800 ≤ c.toNat ∧ c.toNat < 0xDC00 then _ else some (Char.ofNat c.toNat, rest)) = _
  rw [if_neg (by omega), if_neg (by omega), Char.ofNat_toNat]

theorem string?_escape (c : Char) (fuel : Nat) (rest : List Char) :
    string? (fuel + 1) (escape c ++ rest) = cons? c (string? fuel rest) := by
  by_cases hShort : c ∈ shortEscapes
  · obtain ⟨letter, hEscape, hLetter⟩ := escape_of_mem hShort
    rw [hEscape]
    exact string?_of_escaped? fuel (hLetter rest)
  · rw [escape_of_not_mem hShort]
    split
    · rename_i hControl
      exact string?_of_escaped? fuel (unicode?_control hControl rest)
    · rename_i hControl
      have hQuote : c ≠ '"' := fun h => hShort (h ▸ by decide)
      have hBackslash : c ≠ '\\' := fun h => hShort (h ▸ by decide)
      rw [List.singleton_append, string?, if_neg hQuote, if_neg hBackslash, if_neg hControl]
      show (string? fuel rest).bind (fun read => some (c :: read.1, read.2)) = _
      cases string? fuel rest <;> rfl

theorem string?_flatMap_escape (chars rest : List Char) {fuel : Nat} (h : chars.length < fuel) :
    string? fuel (chars.flatMap escape ++ '"' :: rest) = some (chars, rest) := by
  induction chars generalizing fuel with
  | nil =>
    obtain ⟨fuel, rfl⟩ := Nat.exists_eq_add_one_of_ne_zero (Nat.ne_of_gt h)
    rw [List.flatMap_nil, List.nil_append, string?, if_pos rfl]
  | cons c chars ih =>
    obtain ⟨fuel, rfl⟩ := Nat.exists_eq_add_one_of_ne_zero (Nat.ne_of_gt (Nat.zero_lt_of_lt h))
    rw [List.flatMap_cons, List.append_assoc, string?_escape,
      ih (Nat.lt_of_succ_lt_succ h)]
    rfl

/-- What may follow a value within JSON text: nothing, or the character that ends it. -/
def Stops (rest : List Char) : Prop := ∀ c ∈ rest.head?, c = ',' ∨ c = ']' ∨ c = '}'

theorem isDigit_of_stops {rest : List Char} (h : Stops rest) :
    ∀ c ∈ rest.head?, c.isDigit = false := by
  intro c hHead
  rcases h c hHead with rfl | rfl | rfl <;> rfl

theorem fraction?_of_stops {rest : List Char} (h : Stops rest) :
    fraction? rest = some (none, rest) := by
  cases rest with
  | nil => rfl
  | cons c rest => rcases h c rfl with rfl | rfl | rfl <;> rfl

theorem power?_of_stops {rest : List Char} (h : Stops rest) : power? rest = some (none, rest) := by
  cases rest with
  | nil => rfl
  | cons c rest => rcases h c rfl with rfl | rfl | rfl <;> rfl

theorem digits?_append {run rest : List Char} (hSome : run ≠ [])
    (hRun : ∀ c ∈ run, c.isDigit = true) (hRest : ∀ c ∈ rest.head?, c.isDigit = false) :
    digits? (run ++ rest) = some (run, rest) := by
  have hTake : rest.takeWhile Char.isDigit = [] := by
    cases rest with
    | nil => rfl
    | cons c _ => exact List.takeWhile_cons_of_neg (Bool.eq_false_iff.mp (hRest c rfl))
  have hDrop : rest.dropWhile Char.isDigit = rest := by
    cases rest with
    | nil => rfl
    | cons c _ => exact List.dropWhile_cons_of_neg (Bool.eq_false_iff.mp (hRest c rfl))
  rw [digits?, List.takeWhile_append_of_pos hRun, List.dropWhile_append_of_pos hRun, hTake, hDrop,
    List.append_nil]
  exact if_neg (by simpa using hSome)

theorem leadingZero_text (n : Nat) :
    ((Position.text n).toList.head? == some '0' && decide (1 < (Position.text n).toList.length)) =
      false := by
  cases n with
  | zero => rfl
  | succ n =>
    have hHead := Position.head?_text_ne_zero (Nat.succ_pos n)
    rw [beq_eq_false_iff_ne.mpr hHead, Bool.false_and]

theorem unsigned?_text (negative : Bool) (n : Nat) {rest : List Char} (h : Stops rest) :
    unsigned? negative ((Position.text n).toList ++ rest) =
      some (⟨negative, (Position.text n).toList, none, none⟩, rest) := by
  have hDigits := digits?_append (Position.text_ne_nil n) (fun _ => Position.isDigit_of_mem_text)
    (isDigit_of_stops h)
  rw [unsigned?]
  simp only [hDigits, leadingZero_text, fraction?_of_stops h, power?_of_stops h,
    Option.bind_eq_bind, Option.bind_some]
  rfl

theorem numeral?_text (n : Nat) {rest : List Char} (h : Stops rest) :
    numeral? ((Position.text n).toList ++ rest) =
      some (⟨false, (Position.text n).toList, none, none⟩, rest) := by
  rw [numeral?]
  · exact unsigned?_text false n h
  · rintro other hText
    obtain ⟨c, more, hDigits⟩ := List.exists_cons_of_ne_nil (Position.text_ne_nil n)
    rw [hDigits] at hText
    cases hText
    cases Position.isDigit_of_mem_text (hDigits ▸ List.mem_cons_self : '-' ∈ (Position.text n).toList)

theorem toList_toString_negSucc (n : Nat) :
    (toString (Int.negSucc n)).toList = '-' :: (Position.text (n + 1)).toList := by
  show ("-" ++ (n + 1).repr).toList = _
  rw [String.toList_append]
  rfl

theorem numeral?_negSucc (n : Nat) {rest : List Char} (h : Stops rest) :
    numeral? ((toString (Int.negSucc n)).toList ++ rest) =
      some (⟨true, (Position.text (n + 1)).toList, none, none⟩, rest) := by
  rw [toList_toString_negSucc, List.cons_append, numeral?]
  exact unsigned?_text true (n + 1) h

theorem integer?_text (negative : Bool) (n : Nat) :
    Numeral.integer? ⟨negative, (Position.text n).toList, none, none⟩ =
      if negative then if 0 < n ∧ n ≤ Nat.pow 2 63 then some (-n : Int) else none
      else if n < Nat.pow 2 63 then some (n : Int) else none := by
  rw [Numeral.integer?]
  simp only [Position.number_text]
  rfl

theorem numeral?_integer (n : Int64) {rest : List Char} (h : Stops rest) :
    ∃ number : Numeral, numeral? ((toString n.toInt).toList ++ rest) = some (number, rest) ∧
      number.value? = some (.integer n) := by
  have hValue : ∀ number : Numeral, number.integer? = some n.toInt →
      number.value? = some (.integer n) := by
    intro number hInteger
    rw [Numeral.value?, hInteger]
    exact congrArg (some ∘ Value.integer) (Int64.ofInt_toInt n)
  have hHigh := n.toInt_lt
  have hLow := n.le_toInt
  cases hInt : n.toInt with
  | ofNat size =>
    rw [hInt] at hHigh hValue
    refine ⟨_, numeral?_text size h, hValue _ ?_⟩
    rw [integer?_text, if_neg Bool.false_ne_true, if_pos (Int.ofNat_lt.mp hHigh)]
    rfl
  | negSucc size =>
    rw [hInt] at hLow hValue
    refine ⟨_, numeral?_negSucc size h, hValue _ ?_⟩
    have hFits : size + 1 ≤ Nat.pow 2 63 := by
      show size + 1 ≤ 9223372036854775808
      omega
    rw [integer?_text, if_pos rfl, if_pos ⟨Nat.succ_pos size, hFits⟩]
    rfl

end Wiring.Json
