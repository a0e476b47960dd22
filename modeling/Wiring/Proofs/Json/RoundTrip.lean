import Wiring.Proofs.Json.Words
import Wiring.Proofs.Value.Equality
import Wiring.Value.Display

/-! # JSON text reads back as its value

This holds of null, booleans, integers and strings in containers that nest as deep as they are read.
Mappings come back in the order of their keys, so what is read equals what was written and need not
be the same.
-/
namespace Wiring

namespace Value
set_option autoImplicit false

def isPlainLeaf : Value → Bool
  | null => true
  | bool _ => true
  | integer _ => true
  | string _ => true
  | _ => false

/-- A value of null, booleans, integers and strings in sequences and mappings. -/
def IsPlain (value : Value) : Prop :=
  value.Throughout (fun leaf => leaf.isPlainLeaf = true) fun _ => True

mutual

def depth : Value → Nat
  | sequence items => itemsDepth items + 1
  | mapping entries => entriesDepth entries + 1
  | _ => 0

def itemsDepth : List Value → Nat
  | [] => 0
  | item :: rest => max item.depth (itemsDepth rest)

def entriesDepth : List (String × Value) → Nat
  | [] => 0
  | (_, value) :: rest => max value.depth (entriesDepth rest)

end

end Value

namespace Json
set_option autoImplicit false

open Value

theorem skipBlanks_cons {c : Char} (h : isBlank c = false) (rest : List Char) :
    skipBlanks (c :: rest) = c :: rest :=
  List.dropWhile_cons_of_neg (Bool.eq_false_iff.mp h)

theorem word?_append (word : String) (rest : List Char) :
    word? word (word.toList ++ rest) = some rest := by
  rw [word?, if_pos (List.isPrefixOf_iff_prefix.mpr (List.prefix_append _ _)),
    ← String.length_toList, List.drop_left]

theorem length_le_flatMap_escape (chars : List Char) :
    chars.length ≤ (chars.flatMap escape).length := by
  induction chars with
  | nil => exact Nat.le_refl 0
  | cons c chars ih =>
    have hSome : 0 < (escape c).length := by
      by_cases hShort : c ∈ shortEscapes
      · obtain ⟨letter, hEscape, _⟩ := escape_of_mem hShort
        rw [hEscape]
        exact Nat.zero_lt_succ _
      · rw [escape_of_not_mem hShort]
        split <;> exact Nat.zero_lt_succ _
    rw [List.flatMap_cons, List.length_append, List.length_cons]
    omega

theorem quoted_append (text : String) (rest : List Char) :
    quoted text ++ rest = '"' :: (text.toList.flatMap escape ++ '"' :: rest) := by
  rw [quoted, List.cons_append, List.cons_append, List.append_assoc, List.singleton_append]

theorem string?_quoted (text : String) (rest : List Char) :
    string? ((text.toList.flatMap escape ++ '"' :: rest).length + 1)
      (text.toList.flatMap escape ++ '"' :: rest) = some (text.toList, rest) := by
  apply string?_flatMap_escape
  have hLength := length_le_flatMap_escape text.toList
  rw [List.length_append]
  omega

/-- The text begins neither with a blank nor with a bracket that closes. -/
def Opens (text : List Char) : Prop :=
  ∃ c rest, text = c :: rest ∧ isBlank c = false ∧ c ≠ ']'

/-- A text that a value has and that is read back as an equal value, whatever follows it. -/
structure ReadsBack (value : Value) (text : List Char) : Prop where
  written : written value = .ok text
  head : Opens text
  reads : ∀ (fuel depth : Nat) (rest : List Char), value.depth ≤ depth → 2 * text.length ≤ fuel →
    Stops rest →
    ∃ back, value? fuel depth (text ++ rest) = some (back, rest) ∧ back.WellFormed ∧
      beq back value = true

theorem plainLeaf {value : Value} (h : value.isPlainLeaf = true) :
    value.WellFormed ∧ beq value value = true := by
  cases value with
  | null | bool | integer | string => exact ⟨trivial, beq_iff.mpr (.word rfl)⟩
  | _ => cases h

theorem ReadsBack.of_step {value : Value} {text : List Char} (hLeaf : value.isPlainLeaf = true)
    (hWritten : Json.written value = .ok text) (hHead : Opens text)
    (h : ∀ fuel depth rest, Stops rest →
      value? (fuel + 1) depth (text ++ rest) = some (value, rest)) : ReadsBack value text := by
  refine ⟨hWritten, hHead, fun fuel depth rest _ hFuel hStops => ?_⟩
  obtain ⟨c, more, rfl, _⟩ := hHead
  rw [List.length_cons] at hFuel
  obtain ⟨fuel, rfl⟩ := Nat.exists_eq_add_one_of_ne_zero (by omega : fuel ≠ 0)
  exact ⟨value, h fuel depth rest hStops, plainLeaf hLeaf⟩

theorem readsBack_word {value : Value} {c : Char} {word : String} (hLeaf : value.isPlainLeaf = true)
    (hWritten : written value = .ok (c :: word.toList)) (hBlank : isBlank c = false)
    (hClose : c ≠ ']')
    (h : ∀ fuel depth rest, value? (fuel + 1) depth (c :: rest) =
      (word? word rest).map (value, ·)) : ReadsBack value (c :: word.toList) := by
  refine .of_step hLeaf hWritten ⟨c, _, rfl, hBlank, hClose⟩ fun fuel depth rest _ => ?_
  rw [List.cons_append, h, word?_append]
  rfl

def BeginsInteger (c : Char) : Prop := c = '-' ∨ c.isDigit = true

theorem head_integer (n : Int) :
    ∃ c rest, (toString n).toList = c :: rest ∧ BeginsInteger c := by
  cases n with
  | ofNat size =>
    obtain ⟨c, rest, hText⟩ := List.exists_cons_of_ne_nil (Position.text_ne_nil size)
    exact ⟨c, rest, hText, .inr (Position.isDigit_of_mem_text (hText ▸ List.mem_cons_self))⟩
  | negSucc size =>
    refine ⟨'-', (Position.text (size + 1)).toList, ?_, .inl rfl⟩
    exact toList_toString_negSucc size

theorem BeginsInteger.ne {c other : Char} (h : BeginsInteger c) (hSign : other ≠ '-')
    (hDigit : other.isDigit = false) : c ≠ other := by
  rintro rfl
  rcases h with rfl | h
  · exact hSign rfl
  · exact Bool.false_ne_true (hDigit.symm.trans h)

theorem BeginsInteger.isBlank {c : Char} (h : BeginsInteger c) : isBlank c = false := by
  simp only [Json.isBlank, Bool.or_eq_false_iff, beq_eq_false_iff_ne]
  exact ⟨⟨⟨h.ne (by decide) rfl, h.ne (by decide) rfl⟩, h.ne (by decide) rfl⟩,
    h.ne (by decide) rfl⟩

theorem value?_of_beginsInteger {c : Char} (h : BeginsInteger c) (fuel depth : Nat)
    (rest : List Char) : value? (fuel + 1) depth (c :: rest) = do
      let (number, rest) ← numeral? (c :: rest)
      return (← number.value?, rest) := by
  rw [value?, skipBlanks_cons h.isBlank]
  have hQuote : c ≠ '"' := h.ne (by decide) rfl
  have hNull : c ≠ 'n' := h.ne (by decide) rfl
  have hTrue : c ≠ 't' := h.ne (by decide) rfl
  have hFalse : c ≠ 'f' := h.ne (by decide) rfl
  have hBracket : c ≠ '[' := h.ne (by decide) rfl
  have hBrace : c ≠ '{' := h.ne (by decide) rfl
  simp only [if_neg hQuote, if_neg hNull, if_neg hTrue, if_neg hFalse, if_neg hBracket,
    if_neg hBrace]

theorem readsBack_integer (n : Int64) : ReadsBack (.integer n) (toString n.toInt).toList := by
  obtain ⟨c, more, hText, hHead⟩ := head_integer n.toInt
  refine .of_step rfl rfl ⟨c, more, hText, hHead.isBlank, hHead.ne (by decide) rfl⟩
    fun fuel depth rest hStops => ?_
  obtain ⟨number, hNumber, hValue⟩ := numeral?_integer n hStops
  rw [hText, List.cons_append] at hNumber ⊢
  rw [value?_of_beginsInteger hHead, hNumber]
  show number.value?.bind (fun value => some (value, rest)) = _
  rw [hValue]
  rfl

theorem readsBack_string (text : String) : ReadsBack (.string text) (quoted text) := by
  refine .of_step rfl rfl ⟨_, _, rfl, rfl, by decide⟩ fun fuel depth rest _ => ?_
  rw [quoted_append, value?, skipBlanks_cons rfl]
  show (string? _ _).map (fun read => (Value.string (String.ofList read.1), read.2)) = _
  rw [string?_quoted, Option.map_some, String.ofList_toList]

theorem exists_readsBack_leaf {value : Value} (h : value.isPlainLeaf = true) :
    ∃ text, ReadsBack value text := by
  cases value with
  | null => exact ⟨_, readsBack_word (c := 'n') rfl rfl rfl (by decide) fun _ _ _ => rfl⟩
  | bool b =>
    cases b with
    | true => exact ⟨_, readsBack_word (c := 't') rfl rfl rfl (by decide) fun _ _ _ => rfl⟩
    | false => exact ⟨_, readsBack_word (c := 'f') rfl rfl rfl (by decide) fun _ _ _ => rfl⟩
  | integer n => exact ⟨_, readsBack_integer n⟩
  | string text => exact ⟨_, readsBack_string text⟩
  | _ => cases h

def EntryReadsBack (entry : String × Value) (part : List Char) : Prop :=
  ∃ text, part = quoted entry.1 ++ ':' :: text ∧ ReadsBack entry.2 text

theorem exists_writtenItems {items : List Value} (h : ∀ item ∈ items, ∃ text, ReadsBack item text) :
    ∃ parts, writtenItems items = .ok parts ∧ List.Forall₂ ReadsBack items parts := by
  induction items with
  | nil => exact ⟨[], rfl, .nil⟩
  | cons item items ih =>
    obtain ⟨⟨text, hText⟩, hRest⟩ := List.forall_mem_cons.mp h
    obtain ⟨parts, hWritten, hParts⟩ := ih hRest
    refine ⟨text :: parts, ?_, .cons hText hParts⟩
    rw [writtenItems, hText.written, hWritten]
    rfl

theorem exists_writtenEntries {entries : List (String × Value)}
    (h : ∀ entry ∈ entries, ∃ text, ReadsBack entry.2 text) :
    ∃ parts, writtenEntries entries = .ok parts ∧ List.Forall₂ EntryReadsBack entries parts := by
  induction entries with
  | nil => exact ⟨[], rfl, .nil⟩
  | cons entry entries ih =>
    obtain ⟨⟨text, hText⟩, hRest⟩ := List.forall_mem_cons.mp h
    obtain ⟨parts, hWritten, hParts⟩ := ih hRest
    refine ⟨(quoted entry.1 ++ ':' :: text) :: parts, ?_, .cons ⟨text, rfl, hText⟩ hParts⟩
    rw [writtenEntries, hText.written, hWritten]
    rfl

theorem joined_cons_cons (part next : List Char) (parts : List (List Char)) :
    joined (part :: next :: parts) = part ++ ',' :: joined (next :: parts) := rfl

theorem stops_cons {c : Char} (h : c = ',' ∨ c = ']' ∨ c = '}') (rest : List Char) :
    Stops (c :: rest) := by
  rintro _ ⟨⟩
  exact h

theorem items?_joined {item : Value} {items : List Value} {part : List Char}
    {parts : List (List Char)} (h : List.Forall₂ ReadsBack (item :: items) (part :: parts))
    (fuel : Nat) {depth : Nat} (rest : List Char) (hDepth : itemsDepth (item :: items) ≤ depth)
    (hFuel : 2 * (joined (part :: parts)).length ≤ fuel) :
    ∃ backs, items? (fuel + 1) depth (joined (part :: parts) ++ ']' :: rest) = some (backs, rest) ∧
      ItemsWellFormed backs ∧
      List.Forall₂ (fun back item => beq back item = true) backs (item :: items) := by
  obtain ⟨hHere, hDepthRest⟩ := Nat.max_le.mp hDepth
  induction items generalizing item part parts fuel with
  | nil =>
    obtain _ | ⟨hFirst, _ | _⟩ := h
    obtain ⟨back, hRead, hWell, hSame⟩ := hFirst.reads fuel depth (']' :: rest) hHere hFuel
      (stops_cons (.inr (.inl rfl)) rest)
    refine ⟨[back], ?_, ⟨hWell, trivial⟩, .cons hSame .nil⟩
    rw [joined, items?, hRead]
    rfl
  | cons next items ih =>
    obtain _ | ⟨hFirst, hRest⟩ := h
    obtain _ | @⟨_, nextPart, _, parts, hNext, hItems⟩ := hRest
    rw [joined_cons_cons, List.length_append, List.length_cons] at hFuel
    obtain ⟨back, hRead, hWell, hSame⟩ := hFirst.reads fuel depth
      (',' :: (joined (nextPart :: parts) ++ ']' :: rest)) hHere (by omega) (stops_cons (.inl rfl) _)
    obtain ⟨fuel, rfl⟩ := Nat.exists_eq_add_one_of_ne_zero (by omega : fuel ≠ 0)
    obtain ⟨backs, hReadRest, hWellRest, hSameRest⟩ := ih (.cons hNext hItems) fuel
      hDepthRest (by omega) (Nat.max_le.mp hDepthRest).1 (Nat.max_le.mp hDepthRest).2
    refine ⟨back :: backs, ?_, ⟨hWell, hWellRest⟩, .cons hSame hSameRest⟩
    rw [joined_cons_cons, List.append_assoc, List.cons_append, items?, hRead]
    show (items? (fuel + 1) depth (joined (nextPart :: parts) ++ ']' :: rest)).bind
      (fun read => some (back :: read.1, read.2)) = _
    rw [hReadRest]
    rfl

theorem EntryReadsBack.reads {entry : String × Value} {part : List Char}
    (h : EntryReadsBack entry part) (fuel : Nat) {depth : Nat} {after : List Char}
    (hDepth : entry.2.depth ≤ depth) (hFuel : 2 * part.length ≤ fuel) (hStops : Stops after) :
    ∃ text back, part = quoted entry.1 ++ ':' :: text ∧
      value? fuel depth (text ++ after) = some (back, after) ∧ back.WellFormed ∧
      beq back entry.2 = true := by
  obtain ⟨text, rfl, hText⟩ := h
  rw [List.length_append, List.length_cons] at hFuel
  obtain ⟨back, hRead, hWell, hSame⟩ := hText.reads fuel depth after hDepth (by omega) hStops
  exact ⟨text, back, rfl, hRead, hWell, hSame⟩

section Entries

variable {text rest : List Char} {fuel depth : Nat} {back : Value} (key : String)

theorem entries?_last (h : value? fuel depth (text ++ '}' :: rest) = some (back, '}' :: rest)) :
    entries? (fuel + 1) depth (quoted key ++ ':' :: text ++ '}' :: rest) =
      some ([(key, back)], rest) := by
  rw [List.append_assoc, quoted_append, entries?, skipBlanks_cons rfl]
  simp only [string?_quoted, List.cons_append, skipBlanks_cons (rfl : isBlank ':' = false),
    skipBlanks_cons (rfl : isBlank '}' = false), h, Option.bind_eq_bind, Option.bind_some,
    String.ofList_toList, Option.pure_def]

theorem entries?_more (h : value? fuel depth (text ++ ',' :: rest) = some (back, ',' :: rest)) :
    entries? (fuel + 1) depth (quoted key ++ ':' :: text ++ ',' :: rest) =
      (entries? fuel depth rest).bind fun read => some ((key, back) :: read.1, read.2) := by
  rw [List.append_assoc, quoted_append, entries?, skipBlanks_cons rfl]
  simp only [string?_quoted, List.cons_append, skipBlanks_cons (rfl : isBlank ':' = false),
    skipBlanks_cons (rfl : isBlank ',' = false), h, Option.bind_eq_bind, Option.bind_some,
    String.ofList_toList, Option.pure_def]

end Entries

theorem entries?_joined {entry : String × Value} {entries : List (String × Value)}
    {part : List Char} {parts : List (List Char)}
    (h : List.Forall₂ EntryReadsBack (entry :: entries) (part :: parts)) (fuel : Nat) {depth : Nat}
    (rest : List Char) (hDepth : entriesDepth (entry :: entries) ≤ depth)
    (hFuel : 2 * (joined (part :: parts)).length ≤ fuel) :
    ∃ pairs, entries? (fuel + 1) depth (joined (part :: parts) ++ '}' :: rest) =
        some (pairs, rest) ∧
      EntriesWellFormed pairs ∧
      List.Forall₂ (fun pair entry => pair.1 = entry.1 ∧ beq pair.2 entry.2 = true) pairs
        (entry :: entries) := by
  obtain ⟨hHere, hDepthRest⟩ := Nat.max_le.mp hDepth
  induction entries generalizing entry part parts fuel with
  | nil =>
    obtain _ | ⟨hFirst, _ | _⟩ := h
    obtain ⟨text, back, rfl, hRead, hWell, hSame⟩ :=
      hFirst.reads fuel hHere hFuel (stops_cons (.inr (.inr rfl)) rest)
    exact ⟨[(entry.1, back)], entries?_last entry.1 hRead, ⟨hWell, trivial⟩,
      .cons ⟨rfl, hSame⟩ .nil⟩
  | cons next entries ih =>
    obtain _ | ⟨hFirst, hRest⟩ := h
    obtain _ | @⟨_, nextPart, _, parts, hNext, hEntries⟩ := hRest
    rw [joined_cons_cons, List.length_append, List.length_cons] at hFuel
    obtain ⟨text, back, rfl, hRead, hWell, hSame⟩ := hFirst.reads fuel hHere (by omega)
      (stops_cons (.inl rfl) (joined (nextPart :: parts) ++ '}' :: rest))
    obtain ⟨fuel, rfl⟩ := Nat.exists_eq_add_one_of_ne_zero (by omega : fuel ≠ 0)
    obtain ⟨pairs, hReadRest, hWellRest, hSameRest⟩ := ih (.cons hNext hEntries) fuel
      hDepthRest (by omega) (Nat.max_le.mp hDepthRest).1 (Nat.max_le.mp hDepthRest).2
    refine ⟨(entry.1, back) :: pairs, ?_, ⟨hWell, hWellRest⟩, .cons ⟨rfl, hSame⟩ hSameRest⟩
    rw [joined_cons_cons, List.append_assoc, List.cons_append, entries?_more entry.1 hRead,
      hReadRest]
    rfl

theorem entriesWellFormed_of_subset {entries others : List (String × Value)}
    (h : EntriesWellFormed others) (hSubset : entries ⊆ others) : EntriesWellFormed entries := by
  induction entries with
  | nil => trivial
  | cons entry entries ih =>
    obtain ⟨hHere, hRest⟩ := List.cons_subset.mp hSubset
    exact ⟨EntriesWellFormed.of_mem h hHere, ih hRest⟩

theorem exists_mem_of_forall₂ {α β : Type} {relation : α → β → Prop} {xs : List α} {ys : List β}
    (h : List.Forall₂ relation xs ys) {x : α} (hX : x ∈ xs) : ∃ y ∈ ys, relation x y := by
  induction h with
  | nil => cases hX
  | cons hHere _ ih =>
    rcases List.mem_cons.mp hX with rfl | hRest
    · exact ⟨_, List.mem_cons_self, hHere⟩
    · obtain ⟨y, hY, hRelated⟩ := ih hRest
      exact ⟨y, List.mem_cons_of_mem _ hY, hRelated⟩

theorem mappingOf_beq {pairs entries : List (String × Value)}
    (h : List.Forall₂ (fun pair entry => pair.1 = entry.1 ∧ beq pair.2 entry.2 = true) pairs entries)
    (hPairs : EntriesWellFormed pairs) (hKeys : (Entries.keys entries).Nodup) :
    (mappingOf pairs).WellFormed ∧ beq (mappingOf pairs) (.mapping entries) = true := by
  have hSame : Entries.keys pairs = Entries.keys entries := by
    rw [Entries.keys, Entries.keys, ← List.forall₂_eq_eq_eq, List.forall₂_map_left_iff,
      List.forall₂_map_right_iff]
    exact h.imp fun _ _ hPair => hPair.1
  have hPairKeys : (Entries.keys pairs).Nodup := hSame ▸ hKeys
  have hPerm : (Entries.sorted pairs).Perm pairs := Entries.sorted_perm pairs
  rw [mappingOf, Entries.ofList_of_nodup hPairKeys]
  refine ⟨⟨(hPerm.map Prod.fst).nodup_iff.mpr hPairKeys,
    entriesWellFormed_of_subset hPairs hPerm.subset⟩, beq_iff.mpr (.mapping ?_ ?_)⟩
  · rw [hPerm.length_eq, h.length_eq]
  · intro key x hMem
    obtain ⟨⟨_, y⟩, hEntry, rfl, hEqual⟩ := exists_mem_of_forall₂ h (hPerm.subset hMem)
    exact ⟨y, Entries.get?_of_mem hKeys hEntry, hEqual⟩

theorem joined_cons_head (c : Char) (part : List Char) (parts : List (List Char)) :
    joined ((c :: part) :: parts) = c :: joined (part :: parts) := by
  cases parts <;> rfl

theorem value?_bracket {c : Char} (hBlank : isBlank c = false) (hClose : c ≠ ']')
    (fuel depth : Nat) (rest : List Char) :
    value? (fuel + 1) (depth + 1) ('[' :: c :: rest) =
      (items? fuel depth (c :: rest)).map fun (items, rest) => (.sequence items, rest) := by
  rw [value?, skipBlanks_cons rfl]
  simp only [Char.reduceEq, ↓reduceIte, skipBlanks_cons hBlank]
  split
  · rename_i h
    cases h
  · rename_i h _
    exact absurd (List.cons.inj h).1 hClose
  · rename_i h _
    cases h
    rfl

theorem value?_brace (fuel depth : Nat) (rest : List Char) :
    value? (fuel + 1) (depth + 1) ('{' :: '"' :: rest) =
      (entries? fuel depth ('"' :: rest)).map fun (pairs, rest) => (mappingOf pairs, rest) := by
  rw [value?, skipBlanks_cons rfl]
  rfl

theorem readsBack_sequence {items : List Value} {parts : List (List Char)}
    (hWritten : writtenItems items = .ok parts) (h : List.Forall₂ ReadsBack items parts) :
    ReadsBack (.sequence items) ('[' :: joined parts ++ [']']) := by
  refine ⟨?_, ⟨_, _, rfl, rfl, by decide⟩, fun fuel depth rest hDepth hFuel _ => ?_⟩
  · rw [written, hWritten]
    rfl
  · simp only [List.cons_append, List.length_append, List.length_cons] at hFuel ⊢
    obtain ⟨depth, rfl⟩ := Nat.exists_eq_add_one_of_ne_zero (Nat.ne_of_gt (Nat.zero_lt_of_lt hDepth))
    obtain ⟨fuel, rfl⟩ := Nat.exists_eq_add_of_le' (by omega : 2 ≤ fuel)
    rw [List.append_assoc]
    cases h with
    | nil => exact ⟨.sequence [], rfl, trivial, rfl⟩
    | cons hFirst hRest =>
      obtain ⟨backs, hRead, hWell, hSame⟩ := items?_joined (.cons hFirst hRest) fuel rest
        (Nat.le_of_succ_le_succ hDepth) (by omega)
      refine ⟨.sequence backs, ?_, hWell, beq_iff.mpr (.sequence hSame)⟩
      obtain ⟨c, more, rfl, hBlank, hClose⟩ := hFirst.head
      rw [joined_cons_head, List.cons_append] at hRead ⊢
      rw [value?_bracket hBlank hClose]
      exact congrArg (Option.map _) hRead

theorem readsBack_mapping {entries : List (String × Value)} {parts : List (List Char)}
    (hWritten : writtenEntries entries = .ok parts) (h : List.Forall₂ EntryReadsBack entries parts)
    (hKeys : (Entries.keys entries).Nodup) :
    ReadsBack (.mapping entries) ('{' :: joined parts ++ ['}']) := by
  refine ⟨?_, ⟨_, _, rfl, rfl, by decide⟩, fun fuel depth rest hDepth hFuel _ => ?_⟩
  · rw [written, hWritten]
    rfl
  · simp only [List.cons_append, List.length_append, List.length_cons] at hFuel ⊢
    obtain ⟨depth, rfl⟩ := Nat.exists_eq_add_one_of_ne_zero (Nat.ne_of_gt (Nat.zero_lt_of_lt hDepth))
    obtain ⟨fuel, rfl⟩ := Nat.exists_eq_add_of_le' (by omega : 2 ≤ fuel)
    rw [List.append_assoc]
    cases h with
    | nil => exact ⟨.mapping [], rfl, ⟨.nil, trivial⟩, rfl⟩
    | cons hFirst hRest =>
      obtain ⟨pairs, hRead, hWell, hSame⟩ := entries?_joined (.cons hFirst hRest) fuel rest
        (Nat.le_of_succ_le_succ hDepth) (by omega)
      obtain ⟨hMapping, hEqual⟩ := mappingOf_beq hSame hWell hKeys
      refine ⟨mappingOf pairs, ?_, hMapping, hEqual⟩
      obtain ⟨text, rfl, _⟩ := hFirst
      rw [quoted, List.cons_append, List.cons_append, joined_cons_head, List.cons_append] at hRead ⊢
      rw [value?_brace]
      exact congrArg (Option.map _) hRead

theorem exists_readsBack {value : Value} (hWell : value.WellFormed) (hPlain : value.IsPlain) :
    ∃ text, ReadsBack value text := by
  induction value using induction_on_containers with
  | sequence items ih =>
    obtain ⟨parts, hWritten, hParts⟩ := exists_writtenItems fun item hItem =>
      ih item hItem (ItemsWellFormed.of_mem hWell hItem) (ItemsThroughout.of_mem hPlain hItem)
    exact ⟨_, readsBack_sequence hWritten hParts⟩
  | mapping entries ih =>
    obtain ⟨hKeys, hEntries⟩ := hWell
    obtain ⟨parts, hWritten, hParts⟩ := exists_writtenEntries fun entry hEntry =>
      ih entry.1 entry.2 hEntry (EntriesWellFormed.of_mem hEntries hEntry)
        (EntriesThroughout.of_mem hPlain hEntry).2
    exact ⟨_, readsBack_mapping hWritten hParts hKeys⟩
  | leaf value hLeaf => exact exists_readsBack_leaf (hPlain.of_not_isContainer hLeaf)

theorem print_of_readsBack {value : Value} {text : List Char} (h : ReadsBack value text) :
    print value = .ok (String.ofList text) := by
  rw [print, h.written]
  rfl

theorem read?_ofList {value : Value} {text : List Char} (h : ReadsBack value text)
    (hDepth : value.depth ≤ maxDepth) :
    ∃ back, read? (String.ofList text) = some back ∧ back.WellFormed ∧ beq back value = true := by
  obtain ⟨back, hRead, hWell, hSame⟩ := h.reads (2 * text.length + 2) maxDepth [] hDepth
    (Nat.le_add_right _ _) nofun
  rw [List.append_nil] at hRead
  refine ⟨back, ?_, hWell, hSame⟩
  rw [read?, String.toList_ofList]
  simp only [hRead, Option.bind_eq_bind, Option.bind_some]
  rfl

/-- A value of plain leaves that nests no deeper than values are read has a JSON text, which is its
display text if it is a container. The text is read as an equal value, so it is the text of no
different one. -/
theorem read?_print {value : Value} (hWell : value.WellFormed) (hPlain : value.IsPlain)
    (hDepth : value.depth ≤ maxDepth) :
    ∃ text, print value = .ok text ∧
      (∃ back, read? text = some back ∧ back.WellFormed ∧ (back == value) = true) ∧
      (value.isContainer = true → value.display = text) ∧
      ∀ other : Value, other.WellFormed → other.IsPlain → other.depth ≤ maxDepth →
        print other = .ok text → (value == other) = true := by
  obtain ⟨chars, hReads⟩ := exists_readsBack hWell hPlain
  have hPrint := print_of_readsBack hReads
  obtain ⟨back, hBack, hBackWell, hSame⟩ := read?_ofList hReads hDepth
  refine ⟨String.ofList chars, hPrint, ⟨back, hBack, hBackWell, hSame⟩, fun hContainer => ?_, ?_⟩
  · have hText : value.jsonText = String.ofList chars := by rw [jsonText, hPrint]
    rcases (isContainer_iff value).mp hContainer with ⟨items, rfl⟩ | ⟨entries, rfl⟩
    · exact hText
    · exact hText
  · intro other hOtherWell hOtherPlain hOtherDepth hOtherPrint
    obtain ⟨others, hOtherReads⟩ := exists_readsBack hOtherWell hOtherPlain
    rw [print_of_readsBack hOtherReads] at hOtherPrint
    obtain ⟨otherBack, hOtherBack, _, hOtherSame⟩ := read?_ofList hOtherReads hOtherDepth
    rw [Except.ok.inj hOtherPrint, hBack] at hOtherBack
    cases hOtherBack
    exact beq_trans (beq_symm hBackWell hWell hSame) hOtherSame

def nestedPlain : Value :=
  .mapping [("z", .sequence [.integer Int64.minValue, .integer Int64.maxValue, .sequence []]),
    ("a", .mapping [("\"", .string "\n\u0001ä")])]

theorem read?_print_nested :
    ∃ text back, print nestedPlain = .ok text ∧ read? text = some back ∧
      (back == nestedPlain) = true := by
  have hWell : nestedPlain.WellFormed := by
    simp [nestedPlain, WellFormed, EntriesWellFormed, ItemsWellFormed, Entries.keys]
  have hPlain : nestedPlain.IsPlain := by
    simp [nestedPlain, IsPlain, Throughout, EntriesThroughout, ItemsThroughout, isPlainLeaf]
  obtain ⟨text, hText, ⟨back, hBack, _, hSame⟩, _⟩ := read?_print hWell hPlain (by decide)
  exact ⟨text, back, hText, hBack, hSame⟩

end Json
end Wiring
