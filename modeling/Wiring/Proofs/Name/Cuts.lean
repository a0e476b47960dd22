import Wiring.Proofs.Name.Rewriting
import Wiring.Proofs.Text.Offsets

/-! # Short names by byte offsets

What is left of a name for its short form is cut out of it between two offsets, one after the
default namespace and one before the suffix. No name and no suffix makes a breach of it
(`scan_eq_pure`).
-/
namespace Wiring.Name
open Text
set_option autoImplicit false

def stripped? (first text : List Char) : Option (List Char) :=
  if first <+: text then some (text.drop first.length) else none

def startOf (name : String) : Checked Nat :=
  match (stripped? defaultNamespace.toList name.toList).bind (stripped? [separator]) with
  | none => return 0
  | some rest => minus name.utf8ByteSize (width rest)

def stopOf (name suffix : String) (start : Nat) : Checked Nat := do
  if suffix.isEmpty then return name.utf8ByteSize
  else
    let rest ← cut name start name.utf8ByteSize
    if suffix.utf8ByteSize < rest.utf8ByteSize ∧ suffix.toList <:+ name.toList then
      let stop ← minus name.utf8ByteSize suffix.utf8ByteSize
      let kept ← cut name 0 stop
      if kept.toList.getLast? = some separator then return name.utf8ByteSize else return stop
    else return name.utf8ByteSize

/-- What is written so far, and what is left of the name. -/
structure Words where
  written : List Char
  left : List Char

def wordPass (state : Words) : Checked (Pass Words (Option (List Char))) :=
  match state.left with
  | [] => return .done (some state.written)
  | c :: rest =>
    match pass? (c :: rest) with
    | none => return .done none
    | some (written, left) => return .again ⟨state.written ++ written, left⟩

/-- The room for a short name is reserved before its words are read. -/
def scan (name suffix : String) : Checked (Except Failure String) := do
  if name.isEmpty then return .error (.invalidName name)
  else
    let start ← startOf name
    let stop ← stopOf name suffix start
    let _room ← minus stop start
    let text ← cut name start stop
    let words ← loop (·.left.length) wordPass ⟨[], text.toList⟩
    return words.elim (.error (.invalidName name)) fun short => .ok (String.ofList short)

theorem stripped?_append (first rest : List Char) :
    stripped? first (first ++ rest) = some rest := by
  rw [stripped?, if_pos (List.prefix_append first rest), List.drop_left]

theorem eq_append_of_stripped? {first text rest : List Char}
    (h : stripped? first text = some rest) : text = first ++ rest := by
  rw [stripped?] at h
  split at h
  · rename_i hFirst
    cases h
    exact (List.prefix_iff_eq_append.mp hFirst).symm
  · cases h

/-- The default namespace and the separator after it are stripped together. -/
theorem stripped?_bind (name : List Char) :
    (stripped? defaultNamespace.toList name).bind (stripped? [separator]) =
      stripped? lead name := by
  by_cases hLead : lead <+: name
  · obtain ⟨rest, rfl⟩ := hLead
    rw [stripped?_append, lead, List.append_assoc, stripped?_append, Option.bind_some,
      stripped?_append]
  · have hNone : stripped? lead name = none := if_neg hLead
    rw [hNone, Option.bind_eq_none_iff]
    intro middle hMiddle
    rw [← Option.not_isSome_iff_eq_none, Option.isSome_iff_exists]
    rintro ⟨rest, hRest⟩
    refine hLead ⟨rest, ?_⟩
    rw [lead, List.append_assoc, ← eq_append_of_stripped? hRest, ← eq_append_of_stripped? hMiddle]

theorem exists_startOf (name : String) :
    ∃ start, startOf name = pure start ∧ Stands name start (unqualified name.toList) := by
  rw [startOf, stripped?_bind]
  rcases unqualified_cases name.toList with ⟨hWhole, hLead⟩ | hLead
  · have hNone : stripped? lead name.toList = none := if_neg hLead
    rw [hNone, hWhole]
    exact ⟨0, rfl, stands_zero name⟩
  · have hRest : stripped? lead name.toList = some (unqualified name.toList) :=
      (congrArg (stripped? lead) hLead).trans (stripped?_append _ _)
    have hStands : Stands name (0 + width lead) (unqualified name.toList) := by
      apply Stands.append
      rw [← hLead]
      exact stands_zero name
    have hSize := hStands.offset_add_width
    have hStart : name.utf8ByteSize - width (unqualified name.toList) = 0 + width lead := by omega
    rw [hRest]
    exact ⟨_, minus_of_le (by omega), hStart ▸ hStands⟩

section Offsets

variable {name : String} {start : Nat} {rest : List Char}

theorem stopOf_of_stands (h : Stands name start rest) {suffix : String} (hSome : suffix ≠ "") :
    stopOf name suffix start =
      if width suffix.toList < width rest ∧ suffix.toList <:+ name.toList then do
        let stop ← minus name.utf8ByteSize suffix.utf8ByteSize
        let kept ← cut name 0 stop
        if kept.toList.getLast? = some separator then return name.utf8ByteSize else return stop
      else return name.utf8ByteSize := by
  rw [stopOf, if_neg (mt String.isEmpty_iff.mp hSome), cut_rest h, pure_bind, width_toList]
  rfl

theorem eq_append_of_width_lt {suffix : List Char} (hRest : rest <:+ name.toList)
    (hSuffix : suffix <:+ name.toList) (h : width suffix < width rest) :
    ∃ stem, stem ≠ [] ∧ rest = stem ++ suffix := by
  rcases List.suffix_or_suffix_of_suffix hSuffix hRest with ⟨stem, rfl⟩ | ⟨more, rfl⟩
  · refine ⟨stem, ?_, rfl⟩
    rintro rfl
    exact absurd h (Nat.lt_irrefl _)
  · rw [width_append] at h
    omega

theorem width_lt_of_ne_nil {stem : List Char} (h : stem ≠ []) (suffix : List Char) :
    width suffix < width (stem ++ suffix) := by
  obtain ⟨c, more, rfl⟩ := List.exists_cons_of_ne_nil h
  have hChar := c.utf8Size_pos
  rw [width_append, width_cons]
  omega

theorem stopOf_append {suffix : String} {stem : List Char}
    (h : Stands name start (stem ++ suffix.toList)) (hSome : suffix ≠ "") (hStem : stem ≠ []) :
    stopOf name suffix start =
      pure (if stem.getLast? = some separator then name.utf8ByteSize else start + width stem) := by
  have hSize := h.offset_add_width
  have hStop : minus name.utf8ByteSize suffix.utf8ByteSize = pure (start + width stem) := by
    rw [width_append, width_toList] at hSize
    rw [minus_of_le (by omega)]
    exact congrArg pure (by omega)
  rw [stopOf_of_stands h hSome]
  obtain ⟨before, hName, rfl⟩ := h
  have hEnds : width suffix.toList < width (stem ++ suffix.toList) ∧
      suffix.toList <:+ name.toList :=
    ⟨width_lt_of_ne_nil hStem _, before ++ stem, by rw [hName, List.append_assoc]⟩
  have hKept : cut name 0 (width before + width stem) = pure (String.ofList (before ++ stem)) := by
    rw [← width_append, ← String.ofList_toList (s := name), hName, ← List.append_assoc]
    exact cut_start _ _
  have hLast : (before ++ stem).getLast? = stem.getLast? := by
    rw [List.getLast?_append, List.getLast?_eq_some_getLast hStem, Option.some_or]
  rw [if_pos hEnds, hStop, pure_bind, hKept, pure_bind, String.toList_ofList, hLast]
  exact (apply_ite pure _ _ _).symm

/-- A suffix stays if it is no shorter than what is left of the name, or does not end it. -/
theorem stopOf_of_not_append (h : Stands name start rest) {suffix : String} (hSome : suffix ≠ "")
    (hNone : ∀ stem, rest = stem ++ suffix.toList → stem = []) :
    stopOf name suffix start = pure name.utf8ByteSize := by
  rw [stopOf_of_stands h hSome, if_neg]
  rintro ⟨hWider, hEnds⟩
  obtain ⟨before, hName, _⟩ := h
  obtain ⟨stem, hStem, rfl⟩ := eq_append_of_width_lt ⟨before, hName.symm⟩ hEnds hWider
  exact hStem (hNone stem rfl)

theorem stopOf_eq_pure (h : Stands name start rest) (suffix : String) :
    stopOf name suffix start = pure (start + width (withoutSuffix suffix.toList rest)) := by
  by_cases hSome : suffix = ""
  · subst hSome
    rw [String.toList_empty, withoutSuffix_nil, h.offset_add_width]
    rfl
  rcases withoutSuffix_cases suffix.toList rest with
    ⟨stem, rfl, hStem, hLast, hCut⟩ | ⟨hWhole, hAll⟩
  · rw [stopOf_append h hSome hStem, hCut, if_neg hLast]
  · rw [hWhole, h.offset_add_width]
    by_cases hEnds : ∃ stem, stem ≠ [] ∧ rest = stem ++ suffix.toList
    · obtain ⟨stem, hStem, rfl⟩ := hEnds
      rw [stopOf_append h hSome hStem, if_pos ((hAll stem rfl).resolve_left hStem)]
    · exact stopOf_of_not_append h hSome fun stem hRest =>
        Classical.byContradiction fun hStem => hEnds ⟨stem, hStem, hRest⟩

theorem withoutSuffix_isPrefix (suffix rest : List Char) : withoutSuffix suffix rest <+: rest := by
  rcases withoutSuffix_cases suffix rest with ⟨stem, rfl, _, _, hCut⟩ | ⟨hWhole, _⟩
  · rw [hCut]
    exact List.prefix_append stem suffix
  · exact ⟨[], by rw [hWhole, List.append_nil]⟩

theorem cut_withoutSuffix (h : Stands name start rest) (suffix : List Char) :
    cut name start (start + width (withoutSuffix suffix rest)) =
      pure (String.ofList (withoutSuffix suffix rest)) := by
  obtain ⟨after, hAfter⟩ := withoutSuffix_isPrefix suffix rest
  rw [← hAfter] at h
  exact cut_of_stands h

end Offsets

def Writes (state : Words) (answer : Option (List Char)) : Prop :=
  answer = (splitWords false state.left).map (state.written ++ ·)

theorem advances_wordPass {state : Words} {answer : Option (List Char)} (h : Writes state answer) :
    Advances (·.left.length) wordPass Writes state answer := by
  obtain ⟨written, text⟩ := state
  cases text with
  | nil =>
    refine .done (h ▸ ?_)
    show pure (Pass.done (some written)) = pure (.done (some (written ++ [])))
    rw [List.append_nil]
  | cons c rest =>
    rw [Writes, splitWords_pass] at h
    cases hPass : pass? (c :: rest) with
    | none =>
      rw [hPass] at h
      refine .done (h ▸ ?_)
      simp only [wordPass, hPass]
      rfl
    | some pair =>
      obtain ⟨more, left⟩ := pair
      have hNext : wordPass ⟨written, c :: rest⟩ = pure (.again ⟨written ++ more, left⟩) := by
        simp only [wordPass, hPass]
      refine .again hNext ?_ (length_lt_of_pass hPass)
      rw [h, hPass, goOn, Option.bind_some, Option.map_map, Writes]
      exact congrArg (Option.map · _)
        (funext fun tail => (List.append_assoc written more tail).symm)

theorem loop_wordPass (text : List Char) :
    loop (·.left.length) wordPass ⟨[], text⟩ = pure (splitWords false text) :=
  loop_eq_pure Writes (fun _ _ => advances_wordPass) (Option.map_id_apply).symm

/-- Whatever the name and the suffix are, a short name is built without a breach. -/
theorem scan_eq_pure (name suffix : String) : scan name suffix = pure (shorten name suffix) := by
  rw [scan, shorten, short?]
  cases name.isEmpty with
  | true => rfl
  | false =>
    obtain ⟨start, hStart, hStands⟩ := exists_startOf name
    rw [if_neg Bool.false_ne_true, if_neg Bool.false_ne_true, hStart, pure_bind,
      stopOf_eq_pure hStands, pure_bind, minus_of_le (Nat.le_add_right _ _), pure_bind,
      cut_withoutSuffix hStands, pure_bind, String.toList_ofList, loop_wordPass]
    cases splitWords false _ <;> rfl

end Wiring.Name
