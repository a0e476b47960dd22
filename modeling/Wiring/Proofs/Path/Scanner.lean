import Wiring.Proofs.Path.Grammar
import Wiring.Proofs.Text.Offsets

/-! # Path text by byte offsets

Path text is scanned with an offset into it, which moves on by the bytes of the characters that were
read. No text makes a breach of it, and what is found are the keys of the text (`scan_eq_pure`).
-/
namespace Wiring.Path
open Text
set_option autoImplicit false

/-- The character at an offset, if the text does not end there. -/
def charAt? (text : String) (offset : Nat) : Checked (Option Char) := do
  return (← cut text offset text.utf8ByteSize).toList.head?

def afterChar (text : String) (offset : Nat) : Checked Nat := do
  return offset + ((← charAt? text offset).elim 0 Char.utf8Size)

def barePass (text : String) (stop : Nat) : Checked (Pass Nat Nat) := do
  match ← charAt? text stop with
  | some c => if isBare c then return .again (← afterChar text stop) else return .done stop
  | none => return .done stop

def bareKey (text : String) (start : Nat) : Checked (String × Nat) := do
  let stop ← loop (text.utf8ByteSize - ·) (barePass text) start
  return (← cut text start stop, stop)

structure Progress where
  offset : Nat
  awaitsItem : Bool
  keys : List String

abbrev Scanned := Pass Progress (Except Fault (List String))

def itemPass (text : String) (offset : Nat) (keys : List String) (c : Char) : Checked Scanned := do
  if c = '.' ∨ c = ']' then return .done (.error .invalidIndex)
  else if c = '[' then
    let opened ← afterChar text offset
    let rest ← cut text opened text.utf8ByteSize
    match offsetOf? ']' rest with
    | none => return .done (.error .invalidIndex)
    | some size =>
      if 0 < size then return .again ⟨opened + (size + 1), false, keys ++ [← cut rest 0 size]⟩
      else return .again ⟨opened + (size + 1), false, keys⟩
  else
    let (key, stop) ← bareKey text offset
    return .again ⟨stop, false, keys ++ [key]⟩

def linkPass (text : String) (offset : Nat) (keys : List String) (c : Char) : Checked Scanned := do
  if c = '.' then
    let next ← afterChar text offset
    match ← charAt? text next with
    | none => return .done (.error .invalidIndex)
    | some _ => return .again ⟨next, true, keys⟩
  else if c = '[' then return .again ⟨offset, true, keys⟩
  else return .done (.error .unexpectedAfterIndex)

def scanPass (text : String) (state : Progress) : Checked Scanned := do
  match ← charAt? text state.offset with
  | none => return .done (.ok state.keys)
  | some c =>
    if state.awaitsItem then itemPass text state.offset state.keys c
    else linkPass text state.offset state.keys c

/-- A bracket after an item is read by two passes, the first of which stays where it is. -/
def Progress.left (text : String) (state : Progress) : Nat :=
  2 * (text.utf8ByteSize - state.offset) + if state.awaitsItem then 0 else 1

def scan (text : String) : Checked (Except Malformed (List String)) := do
  return (← loop (Progress.left text) (scanPass text) ⟨0, true, []⟩).mapError (⟨·, text⟩)

section Scanning

variable {text : String} {offset : Nat} {c : Char} {rest : List Char} {keys : List String}
  {answer : Except Fault (List String)}

theorem charAt?_of_stands (h : Stands text offset rest) :
    charAt? text offset = pure rest.head? := by
  rw [charAt?, cut_rest h, pure_bind, String.toList_ofList]

theorem afterChar_of_stands (h : Stands text offset (c :: rest)) :
    afterChar text offset = pure (offset + c.utf8Size) := by
  rw [afterChar, charAt?_of_stands h]
  rfl

theorem loop_barePass (h : Stands text offset rest) :
    loop (text.utf8ByteSize - ·) (barePass text) offset =
      pure (offset + width (rest.takeWhile isBare)) := by
  refine loop_eq_pure (fun stop answer => ∃ rest, Stands text stop rest ∧
    answer = stop + width (rest.takeWhile isBare)) ?_ ⟨rest, h, rfl⟩
  rintro stop _ ⟨rest, hStands, rfl⟩
  cases rest with
  | nil =>
    refine .done ?_
    rw [barePass, charAt?_of_stands hStands]
    rfl
  | cons c rest =>
    cases hBare : isBare c with
    | false =>
      refine .done ?_
      rw [barePass, charAt?_of_stands hStands, pure_bind, List.head?_cons]
      simp [hBare]
    | true =>
      have hPass : barePass text stop = pure (.again (stop + c.utf8Size)) := by
        rw [barePass, charAt?_of_stands hStands, afterChar_of_stands hStands]
        simp [hBare]
      refine .again hPass ⟨rest, hStands.cons, ?_⟩ (hStands.sub_lt_sub (Nat.le_refl _))
      rw [List.takeWhile_cons_of_pos hBare, width_cons, Nat.add_assoc]

theorem bareKey_of_stands (h : Stands text offset rest) :
    bareKey text offset = pure (String.ofList (rest.takeWhile isBare),
      offset + width (rest.takeWhile isBare)) := by
  have hCut : cut text offset (offset + width (rest.takeWhile isBare)) =
      pure (String.ofList (rest.takeWhile isBare)) := by
    rw [← List.takeWhile_append_dropWhile (p := isBare) (l := rest)] at h
    exact cut_of_stands h
  rw [bareKey, loop_barePass h, pure_bind, hCut]
  rfl

def Leads (text : String) (state : Progress) (answer : Except Fault (List String)) : Prop :=
  ∃ rest, Stands text state.offset rest ∧
    answer = (if state.awaitsItem then items rest else afterItem rest).map (state.keys ++ ·)

theorem items_of_not_bare (hOpening : c ≠ '[') (hBare : isBare c = false) :
    items (c :: rest) = .error .invalidIndex := by
  rw [items, if_neg hOpening, hBare, if_neg Bool.false_ne_true]

theorem itemPass_bracket (h : Stands text offset ('[' :: rest)) :
    itemPass text offset keys '[' =
      match offsetOf? ']' (String.ofList rest) with
      | none => pure (.done (.error .invalidIndex))
      | some size => do
        if 0 < size then
          return .again ⟨offset + 1 + (size + 1), false,
            keys ++ [← cut (String.ofList rest) 0 size]⟩
        else return .again ⟨offset + 1 + (size + 1), false, keys⟩ := by
  have hRest : cut text (offset + 1) text.utf8ByteSize = pure (String.ofList rest) :=
    cut_rest h.cons
  rw [itemPass, if_neg (by decide), if_pos rfl, afterChar_of_stands h, pure_bind]
  change (cut text (offset + 1) text.utf8ByteSize >>= _) = _
  rw [hRest]
  rfl

theorem itemPass_of_not_closed (h : Stands text offset ('[' :: rest)) (hNone : ']' ∉ rest) :
    itemPass text offset keys '[' = pure (.done (.error .invalidIndex)) := by
  rw [itemPass_bracket h, offsetOf?_of_not_mem hNone]

theorem itemPass_of_closed {body after : List Char}
    (h : Stands text offset ('[' :: (body ++ ']' :: after))) (hBody : ']' ∉ body) :
    itemPass text offset keys '[' = pure (.again ⟨offset + 1 + (width body + 1), false,
      if body.isEmpty then keys else keys ++ [String.ofList body]⟩) := by
  rw [itemPass_bracket h, offsetOf?_append_cons hBody]
  dsimp only
  cases body with
  | nil => rfl
  | cons c more =>
    have hPositive : 0 < width (c :: more) := by
      rw [width_cons]
      exact Nat.add_pos_left c.utf8Size_pos _
    rw [if_pos hPositive, cut_start]
    rfl

theorem itemPass_of_isBare (h : Stands text offset (c :: rest)) (hBare : isBare c = true) :
    itemPass text offset keys c =
      pure (.again ⟨offset + width ((c :: rest).takeWhile isBare), false,
        keys ++ [String.ofList ((c :: rest).takeWhile isBare)]⟩) := by
  obtain ⟨hOpening, hClosing, hDot⟩ := (isBare_iff c).mp hBare
  rw [itemPass, if_neg (not_or.mpr ⟨hDot, hClosing⟩), if_neg hOpening, bareKey_of_stands h]
  rfl

theorem left_lt_left (h : Stands text offset (c :: rest)) {state next : Progress}
    (hState : state.offset = offset) (hNext : offset + c.utf8Size ≤ next.offset) :
    next.left text < state.left text := by
  have hLess := h.sub_lt_sub hNext
  rw [Progress.left, Progress.left, hState]
  split <;> split <;> omega

theorem items_of_isBare (h : isBare c = true) :
    items (c :: rest) = (afterItem ((c :: rest).dropWhile isBare)).map
      (String.ofList ((c :: rest).takeWhile isBare) :: ·) := by
  rw [List.dropWhile_cons_of_pos h, List.takeWhile_cons_of_pos h, items,
    if_neg ((isBare_iff c).mp h).1, if_pos h]

theorem scanPass_of_awaitsItem (h : Stands text offset (c :: rest)) :
    scanPass text ⟨offset, true, keys⟩ = itemPass text offset keys c := by
  rw [scanPass, charAt?_of_stands h]
  rfl

theorem advances_of_closed {body after : List Char}
    (h : Stands text offset ('[' :: (body ++ ']' :: after))) (hBody : ']' ∉ body) :
    Advances (Progress.left text) (scanPass text) (Leads text) ⟨offset, true, keys⟩
      ((items ('[' :: (body ++ ']' :: after))).map (keys ++ ·)) := by
  have hAfter : Stands text (offset + 1 + (width body + 1)) after := h.cons.append.cons
  refine .again ((scanPass_of_awaitsItem h).trans (itemPass_of_closed h hBody))
    ⟨after, hAfter, ?_⟩ (left_lt_left h rfl (Nat.le_add_right _ _))
  rw [items_bracketed_append hBody]
  cases afterItem after with
  | error fault => rfl
  | ok others => cases body <;> simp [Except.map]

theorem advances_of_isBare (h : Stands text offset (c :: rest)) (hBare : isBare c = true) :
    Advances (Progress.left text) (scanPass text) (Leads text) ⟨offset, true, keys⟩
      ((items (c :: rest)).map (keys ++ ·)) := by
  have hAfter : Stands text (offset + width ((c :: rest).takeWhile isBare))
      ((c :: rest).dropWhile isBare) := by
    refine Stands.append ?_
    rwa [List.takeWhile_append_dropWhile]
  refine .again ((scanPass_of_awaitsItem h).trans (itemPass_of_isBare h hBare)) ⟨_, hAfter, ?_⟩ ?_
  · rw [items_of_isBare hBare]
    cases afterItem _ with
    | error fault => rfl
    | ok others => simp [Except.map]
  · refine left_lt_left h rfl ?_
    rw [List.takeWhile_cons_of_pos hBare, width_cons, ← Nat.add_assoc]
    exact Nat.le_add_right _ _

theorem itemPass_of_not_bare (hOpening : c ≠ '[') (hBare : isBare c = false) :
    itemPass text offset keys c = pure (.done (.error .invalidIndex)) := by
  rw [itemPass, if_pos]
  by_contra hOther
  obtain ⟨hDot, hClosing⟩ := not_or.mp hOther
  exact Bool.eq_false_iff.mp hBare ((isBare_iff c).mpr ⟨hOpening, hClosing, hDot⟩)

/-- Where an item has to be, one pass reads it and gets on. -/
theorem advances_of_awaitsItem (h : Stands text offset (c :: rest)) :
    Advances (Progress.left text) (scanPass text) (Leads text) ⟨offset, true, keys⟩
      ((items (c :: rest)).map (keys ++ ·)) := by
  have hPass : scanPass text ⟨offset, true, keys⟩ = _ := scanPass_of_awaitsItem h
  by_cases hOpening : c = '['
  · subst hOpening
    by_cases hClosed : ']' ∈ rest
    · obtain ⟨body, after, rfl, hBody⟩ := List.eq_append_cons_of_mem hClosed
      exact advances_of_closed h hBody
    · rw [items_of_not_closed hClosed]
      exact .done (hPass.trans (itemPass_of_not_closed h hClosed))
  · cases hBare : isBare c with
    | true => exact advances_of_isBare h hBare
    | false =>
      rw [items_of_not_bare hOpening hBare]
      exact .done (hPass.trans (itemPass_of_not_bare hOpening hBare))

theorem advances_of_not_awaitsItem (h : Stands text offset (c :: rest)) :
    Advances (Progress.left text) (scanPass text) (Leads text) ⟨offset, false, keys⟩
      ((afterItem (c :: rest)).map (keys ++ ·)) := by
  have hPass : scanPass text ⟨offset, false, keys⟩ = linkPass text offset keys c := by
    rw [scanPass, charAt?_of_stands h]
    rfl
  by_cases hDot : c = '.'
  · subst hDot
    have hNext : charAt? text (offset + 1) = pure rest.head? := charAt?_of_stands h.cons
    have hLink : linkPass text offset keys '.' = match rest.head? with
        | none => pure (.done (.error .invalidIndex))
        | some _ => pure (.again ⟨offset + 1, true, keys⟩) := by
      rw [linkPass, if_pos rfl, afterChar_of_stands h, pure_bind]
      change (charAt? text (offset + 1) >>= _) = _
      rw [hNext]
      cases rest <;> rfl
    cases rest with
    | nil =>
      refine .done ((hPass.trans hLink).trans ?_)
      rw [afterItem]
      rfl
    | cons next more =>
      rw [afterItem_dot (List.cons_ne_nil _ _)]
      exact .again (hPass.trans hLink) ⟨_, h.cons, rfl⟩ (left_lt_left h rfl (Nat.le_refl _))
  by_cases hOpening : c = '['
  · subst hOpening
    rw [afterItem_bracket]
    refine .again (hPass.trans rfl) ⟨_, h, rfl⟩ ?_
    exact Nat.lt_succ_self _
  · have hLink : linkPass text offset keys c = pure (.done (.error .unexpectedAfterIndex)) := by
      rw [linkPass, if_neg hDot, if_neg hOpening]
    rw [afterItem, if_neg hDot, if_neg hOpening]
    exact .done (hPass.trans hLink)

theorem advances_scanPass {state : Progress} (h : Leads text state answer) :
    Advances (Progress.left text) (scanPass text) (Leads text) state answer := by
  obtain ⟨offset, awaitsItem, keys⟩ := state
  obtain ⟨rest, hStands, rfl⟩ := h
  cases rest with
  | nil =>
    have hPass : scanPass text ⟨offset, awaitsItem, keys⟩ = pure (.done (.ok keys)) := by
      rw [scanPass, charAt?_of_stands hStands]
      rfl
    refine .done (hPass.trans ?_)
    rw [items, afterItem]
    cases awaitsItem <;> simp [Except.map]
  | cons c rest =>
    cases awaitsItem with
    | true => exact advances_of_awaitsItem hStands
    | false => exact advances_of_not_awaitsItem hStands

end Scanning

theorem loop_scanPass (text : String) :
    loop (Progress.left text) (scanPass text) ⟨0, true, []⟩ = pure (items text.toList) := by
  refine loop_eq_pure (Leads text) (fun _ _ => advances_scanPass)
    ⟨text.toList, stands_zero text, ?_⟩
  cases items text.toList <;> rfl

/-- Whatever the text is, it is scanned without a breach, and what is found are its keys. -/
theorem scan_eq_pure (text : String) : scan text = pure (tokenize text) := by
  rw [scan, loop_scanPass, tokenize]
  rfl

end Wiring.Path
