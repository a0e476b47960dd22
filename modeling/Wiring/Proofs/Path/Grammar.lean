import Mathlib.Data.List.Induction
import Mathlib.Data.List.TakeWhile
import Wiring.Proofs.Path.Dotted

/-! # The grammar of path text

Path text is empty or a chain of items: bare keys, and brackets around what holds no closing one.
This is all that is accepted. What is wrong with other text can be seen from what follows its
longest start that ends in an item (`tokenize_grammar`).
-/
namespace Wiring.Path
set_option autoImplicit false

inductive Item where
  | bare (key : String)
  | bracketed (body : String)

namespace Item

def text : Item → List Char
  | bare key => key.toList
  | bracketed body => '[' :: (body.toList ++ [']'])

def IsSound : Item → Prop
  | bare key => IsBareKey key
  | bracketed body => ']' ∉ body.toList

def key? : Item → Option String
  | bare key => some key
  | bracketed body => if body = "" then none else some body

def EndsBefore (rest : List Char) : Item → Prop
  | bare _ => ∀ c ∈ rest.head?, isBare c = false
  | bracketed _ => True

end Item

/-- Items that follow another one. A bare key has a dot before it, a bracket may have one. -/
inductive Linked : List Item → List Char → Prop
  | nil : Linked [] []
  | dot {item : Item} {chain : List Item} {text : List Char} : item.IsSound → Linked chain text →
    Linked (item :: chain) ('.' :: (item.text ++ text))
  | bracket {body : String} {chain : List Item} {text : List Char} :
    (Item.bracketed body).IsSound → Linked chain text →
    Linked (.bracketed body :: chain) ((Item.bracketed body).text ++ text)

inductive Spelled : List Item → List Char → Prop
  | nil : Spelled [] []
  | first {item : Item} {chain : List Item} {text : List Char} : item.IsSound → Linked chain text →
    Spelled (item :: chain) (item.text ++ text)

def EndsInItem (start : List Char) : Prop := ∃ chain, chain ≠ [] ∧ Spelled chain start

structure IsLongestStart (start text : List Char) : Prop where
  isStart : start <+: text
  endsInItem : EndsInItem start
  longest (other : List Char) : other <+: text → EndsInItem other → other.length ≤ start.length

/-- After its last item the text goes on with neither a dot nor a bracket. -/
def RunsOn (text : List Char) : Prop :=
  ∃ start next rest, text = start ++ next :: rest ∧ IsLongestStart start text ∧
    next ≠ '.' ∧ next ≠ '['

section Chains

variable {item : Item} {chain more : List Item} {text rest : List Char}

theorem Item.text_ne_nil (h : item.IsSound) : item.text ≠ [] := by
  cases item with
  | bare key => exact mt String.toList_eq_nil_iff.mp (IsBareKey.nonempty h)
  | bracketed body => exact List.cons_ne_nil _ _

theorem linked_dot_iff : Linked chain ('.' :: text) ↔ chain ≠ [] ∧ Spelled chain text := by
  constructor
  · intro h
    generalize hDotted : '.' :: text = dotted at h
    cases h with
    | nil => cases hDotted
    | dot hItem hRest =>
      cases hDotted
      exact ⟨List.cons_ne_nil _ _, .first hItem hRest⟩
    | bracket => cases hDotted
  · rintro ⟨hSome, h⟩
    cases h with
    | nil => exact absurd rfl hSome
    | first hItem hRest => exact .dot hItem hRest

theorem Linked.append (h : Linked chain text) (hMore : Linked more rest) :
    Linked (chain ++ more) (text ++ rest) := by
  induction h with
  | nil => exact hMore
  | dot hItem _ ih =>
    rw [List.cons_append, List.cons_append, List.append_assoc]
    exact .dot hItem ih
  | bracket hItem _ ih =>
    rw [List.cons_append, List.append_assoc]
    exact .bracket hItem ih

theorem Spelled.append (h : Spelled chain text) (hSome : chain ≠ []) (hMore : Linked more rest) :
    Spelled (chain ++ more) (text ++ rest) :=
  (linked_dot_iff.mp ((linked_dot_iff.mpr ⟨hSome, h⟩).append hMore)).2

theorem Item.sound_and_subset_cons {other : Item} (hOther : other.IsSound)
    (h : item ∈ chain → item.IsSound ∧ item.text ⊆ text) (hMem : item ∈ other :: chain) :
    item.IsSound ∧ item.text ⊆ other.text ++ text := by
  rcases List.mem_cons.mp hMem with rfl | hMore
  · exact ⟨hOther, List.subset_append_left _ _⟩
  · obtain ⟨hSound, hText⟩ := h hMore
    exact ⟨hSound, List.subset_append_of_subset_right _ hText⟩

theorem Linked.of_mem (h : Linked chain text) (hMem : item ∈ chain) :
    item.IsSound ∧ item.text ⊆ text := by
  induction h with
  | nil => cases hMem
  | dot hItem _ ih =>
    obtain ⟨hSound, hText⟩ := Item.sound_and_subset_cons hItem ih hMem
    exact ⟨hSound, List.subset_cons_of_subset _ hText⟩
  | bracket hItem _ ih => exact Item.sound_and_subset_cons hItem ih hMem

theorem Spelled.of_mem (h : Spelled chain text) (hMem : item ∈ chain) :
    item.IsSound ∧ item.text ⊆ text := by
  cases h with
  | nil => cases hMem
  | first hItem hRest => exact Item.sound_and_subset_cons hItem hRest.of_mem hMem

theorem Linked.isBare_head? (h : Linked chain text) : ∀ c ∈ text.head?, isBare c = false := by
  cases h with
  | nil => exact nofun
  | dot => rintro c ⟨⟩; rfl
  | bracket => rintro c ⟨⟩; rfl

end Chains

section Scanning

variable {item : Item} {chain : List Item} {text start rest : List Char}

theorem items_bracketed_append {body : List Char} (h : ']' ∉ body) (rest : List Char) :
    items ('[' :: (body ++ ']' :: rest)) =
      (afterItem rest).map fun keys => if body.isEmpty then keys else String.ofList body :: keys := by
  have hBody : ∀ c ∈ body, (c != ']') = true := fun c hMem => bne_iff_ne.mpr fun hSame =>
    h (hSame ▸ hMem)
  have hDrop : (body ++ ']' :: rest).dropWhile (· != ']') = ']' :: rest := by
    rw [List.dropWhile_append_of_pos hBody]
    rfl
  have hTake : (body ++ ']' :: rest).takeWhile (· != ']') = body := by
    rw [List.takeWhile_append_of_pos hBody]
    exact List.append_nil body
  rw [items, if_pos rfl]
  split
  · rename_i hNone
    rw [hDrop] at hNone
    cases hNone
  · rename_i hSome
    rw [hDrop] at hSome
    cases hSome
    rw [hTake]

theorem items_text_append (h : item.IsSound) (hEnds : item.EndsBefore rest) :
    items (item.text ++ rest) = (afterItem rest).map (item.key?.toList ++ ·) := by
  cases item with
  | bare key =>
    have hSome := mt String.toList_eq_nil_iff.mp (IsBareKey.nonempty h)
    rw [Item.text, items_bare_append rest hSome (fun _ => IsBareKey.isBare h) hEnds,
      String.ofList_toList]
    rfl
  | bracketed body =>
    rw [Item.text, List.cons_append, List.append_assoc, List.singleton_append,
      items_bracketed_append h, String.ofList_toList, Item.key?]
    by_cases hBody : body = ""
    · subst hBody
      rfl
    · have hFull : body.toList.isEmpty = false := by simpa using hBody
      rw [hFull, if_neg hBody]
      rfl

theorem afterItem_dot (h : rest ≠ []) : afterItem ('.' :: rest) = items rest := by
  rw [afterItem, if_pos rfl, if_neg (by simpa using h)]

theorem afterItem_bracket (rest : List Char) : afterItem ('[' :: rest) = items ('[' :: rest) := by
  rw [afterItem, if_neg (by decide), if_pos rfl]

/-- Where no longer chain begins, an item ends with what it is spelled by. -/
theorem Item.endsBefore_append (hItem : item.IsSound) (h : Linked chain text)
    (hRest : ∀ c ∈ rest.head?, isBare c = true →
      ∀ longer, ¬ Linked longer ('.' :: (item.text ++ text) ++ [c])) :
    item.EndsBefore (text ++ rest) := by
  cases item with
  | bracketed body => trivial
  | bare key =>
    cases text with
    | cons first others => exact h.isBare_head?
    | nil =>
      intro c hHead
      by_contra hBare
      have hChar : isBare c = true := by simpa using hBare
      have hKey : IsBareKey (key ++ String.singleton c) := by
        refine (isBareKey_iff _).mpr ⟨?_, ?_⟩
        · simp
        · rw [String.toList_append, List.all_append, ((isBareKey_iff key).mp hItem).2]
          simpa using hChar
      have hLonger : Linked [.bare (key ++ String.singleton c)]
          ('.' :: ((Item.bare (key ++ String.singleton c)).text ++ [])) := .dot hKey .nil
      refine hRest c hHead hChar [.bare (key ++ String.singleton c)] ?_
      simpa [Item.text] using hLonger

theorem filterMap_key?_cons (item : Item) (chain : List Item) :
    (item :: chain).filterMap Item.key? = item.key?.toList ++ chain.filterMap Item.key? := by
  rw [List.filterMap_cons]
  cases item.key? <;> rfl

theorem items_chain_append (hItem : item.IsSound) (hEnds : item.EndsBefore (text ++ rest))
    (hText : afterItem (text ++ rest) =
      (afterItem rest).map (chain.filterMap Item.key? ++ ·)) :
    items (item.text ++ (text ++ rest)) =
      (afterItem rest).map ((item :: chain).filterMap Item.key? ++ ·) := by
  rw [items_text_append hItem hEnds, hText, filterMap_key?_cons]
  cases afterItem rest with
  | error fault => rfl
  | ok keys => exact congrArg Except.ok (List.append_assoc _ _ _).symm

/-- Items are read to their end, unless the text goes on with what is still part of the last one. -/
theorem afterItem_linked_append (rest : List Char) (h : Linked chain start)
    (hRest : ∀ c ∈ rest.head?, isBare c = true → ∀ longer, ¬ Linked longer (start ++ [c])) :
    afterItem (start ++ rest) = (afterItem rest).map (chain.filterMap Item.key? ++ ·) := by
  induction h with
  | nil =>
    rw [List.nil_append]
    cases afterItem rest <;> rfl
  | @dot item chain text hItem hText ih =>
    have hEnds := Item.endsBefore_append hItem hText hRest
    have hTail := ih fun c hHead hBare longer hLonger =>
      hRest c hHead hBare (item :: longer) (by
        rw [List.cons_append, List.append_assoc]
        exact .dot hItem hLonger)
    have hSome : item.text ++ (text ++ rest) ≠ [] :=
      List.append_ne_nil_of_left_ne_nil (Item.text_ne_nil hItem) _
    rw [List.cons_append, List.append_assoc, afterItem_dot hSome]
    exact items_chain_append hItem hEnds hTail
  | @bracket body chain text hItem hText ih =>
    have hTail := ih fun c hHead hBare longer hLonger =>
      hRest c hHead hBare (.bracketed body :: longer) (by
        rw [List.append_assoc]
        exact .bracket hItem hLonger)
    have hScan : afterItem ((Item.bracketed body).text ++ (text ++ rest)) =
        items ((Item.bracketed body).text ++ (text ++ rest)) := afterItem_bracket _
    rw [List.append_assoc, hScan]
    exact items_chain_append hItem trivial hTail

theorem items_of_spelled (h : Spelled chain text) :
    items text = .ok (chain.filterMap Item.key?) := by
  cases h with
  | nil => rw [items, List.filterMap_nil]
  | @first item chain rest hItem hRest =>
    have hSome : item.text ++ rest ≠ [] :=
      List.append_ne_nil_of_left_ne_nil (Item.text_ne_nil hItem) _
    have hScan := afterItem_linked_append [] (.dot hItem hRest) fun c hHead => by cases hHead
    rw [List.append_nil, afterItem_dot hSome, afterItem] at hScan
    rw [hScan]
    exact congrArg Except.ok (List.append_nil _)

end Scanning

section Longest

variable {chain : List Item} {text start : List Char}

theorem exists_isLongestStart (h : EndsInItem start) (hStart : start <+: text) :
    ∃ longest, IsLongestStart longest text := by
  induction text using List.reverseRecOn generalizing start with
  | nil =>
    rw [List.prefix_nil.mp hStart] at h
    exact ⟨[], List.prefix_rfl, h, fun other hOther _ => hOther.length_le⟩
  | append_singleton init c ih =>
    by_cases hWhole : EndsInItem (init ++ [c])
    · exact ⟨init ++ [c], List.prefix_rfl, hWhole, fun other hOther _ => hOther.length_le⟩
    · have hInit {other : List Char} (hOther : other <+: init ++ [c]) (hEnds : EndsInItem other) :
          other <+: init := by
        rcases List.prefix_concat_iff.mp hOther with rfl | hInit
        · exact absurd hEnds hWhole
        · exact hInit
      obtain ⟨longest, hLongest⟩ := ih h (hInit hStart h)
      exact ⟨longest, hLongest.isStart.trans (List.prefix_append init [c]), hLongest.endsInItem,
        fun other hOther hEnds => hLongest.longest other (hInit hOther hEnds) hEnds⟩

theorem items_of_not_closed {rest : List Char} (h : ']' ∉ rest) :
    items ('[' :: rest) = .error .invalidIndex := by
  have hDrop : rest.dropWhile (· != ']') = [] := List.dropWhile_eq_nil_iff.mpr fun c hMem =>
    bne_iff_ne.mpr fun hSame => h (hSame ▸ hMem)
  rw [items, if_pos rfl]
  split
  · rfl
  · rename_i hSome
    rw [hDrop] at hSome
    cases hSome

theorem items_of_not_prefix {text : List Char} (hSome : text ≠ [])
    (h : ∀ item : Item, item.IsSound → ¬ item.text <+: text) :
    items text = .error .invalidIndex := by
  obtain ⟨c, rest, rfl⟩ := List.exists_cons_of_ne_nil hSome
  have hBare : isBare c = false := by
    by_contra hChar
    have hKey : IsBareKey (String.singleton c) :=
      (isBareKey_iff _).mpr ⟨by simp, by simpa using hChar⟩
    exact h (.bare (String.singleton c)) hKey (by simp [Item.text])
  by_cases hOpening : c = '['
  · subst hOpening
    refine items_of_not_closed fun hMem => ?_
    obtain ⟨body, after, rfl, hBody⟩ := List.eq_append_cons_of_mem hMem
    refine h (.bracketed (String.ofList body)) (by simpa [Item.IsSound] using hBody) ?_
    simp [Item.text]
  · rw [items, if_neg hOpening, hBare, if_neg Bool.false_ne_true]

theorem not_prefix_of_isBareKey {key : String} (h : IsBareKey key) {next : Char}
    (hNext : isBare next = false) (rest : List Char) : ¬ key.toList <+: next :: rest := by
  intro hStart
  obtain ⟨first, others, hKey⟩ :=
    List.exists_cons_of_ne_nil (mt String.toList_eq_nil_iff.mp h.nonempty)
  have hFirst : isBare first = true := h.isBare (hKey ▸ List.mem_cons_self)
  rw [hKey, List.cons_prefix_cons] at hStart
  rw [hStart.1, hNext] at hFirst
  cases hFirst

/-- What is wrong with text if no chain goes on past the character `next`. -/
def faultAt (next : Char) : Fault :=
  if next = '.' ∨ next = '[' then .invalidIndex else .unexpectedAfterIndex

theorem afterItem_of_not_longer {next : Char} {rest : List Char} (h : EndsInItem start)
    (hLonger : ∀ more, more ≠ [] → more <+: next :: rest → ¬ EndsInItem (start ++ more)) :
    afterItem (next :: rest) = .error (faultAt next) := by
  obtain ⟨chain, hSome, hSpelled⟩ := h
  have hLinked {item : Item} {more : List Char} (hMore : more ≠ []) (hStart : more <+: next :: rest) :
      ¬ Linked [item] more := fun hItem =>
    hLonger more hMore hStart ⟨_, List.append_ne_nil_of_right_ne_nil chain (List.cons_ne_nil item []),
      hSpelled.append hSome hItem⟩
  by_cases hDot : next = '.'
  · subst hDot
    rw [faultAt, if_pos (.inl rfl)]
    by_cases hRest : rest = []
    · rw [hRest, afterItem]
      rfl
    · rw [afterItem_dot hRest]
      refine items_of_not_prefix hRest fun item hItem hStart => ?_
      have hDotted := Linked.dot hItem .nil
      rw [List.append_nil] at hDotted
      exact hLinked (List.cons_ne_nil _ _) ((List.prefix_cons_inj '.').mpr hStart) hDotted
  by_cases hOpening : next = '['
  · subst hOpening
    rw [faultAt, if_pos (.inr rfl), afterItem_bracket]
    refine items_of_not_prefix (List.cons_ne_nil _ _) fun item hItem hStart => ?_
    cases item with
    | bare key => exact not_prefix_of_isBareKey hItem rfl rest hStart
    | bracketed body =>
      have hBracket := Linked.bracket hItem .nil
      rw [List.append_nil] at hBracket
      exact hLinked (List.cons_ne_nil _ _) hStart hBracket
  · rw [afterItem, if_neg hDot, if_neg hOpening, faultAt, if_neg (not_or.mpr ⟨hDot, hOpening⟩)]

/-- Text is scanned up to the end of its longest start, and there it is at fault. -/
theorem IsLongestStart.items_append {next : Char} {rest : List Char}
    (h : IsLongestStart start (start ++ next :: rest)) :
    items (start ++ next :: rest) = .error (faultAt next) := by
  have hLonger (more : List Char) (hMore : more ≠ []) (hStart : more <+: next :: rest) :
      ¬ EndsInItem (start ++ more) := by
    intro hEnds
    have hLength := h.longest _ ((List.prefix_append_right_inj start).mpr hStart) hEnds
    have hPositive := List.length_pos_iff.mpr hMore
    rw [List.length_append] at hLength
    omega
  obtain ⟨chain, hSome, hSpelled⟩ := h.endsInItem
  have hScan := afterItem_linked_append (next :: rest) (linked_dot_iff.mpr ⟨hSome, hSpelled⟩)
    fun c hHead _ longer hLinked => by
      cases hHead
      have hEnds := linked_dot_iff.mp (by rwa [List.cons_append] at hLinked)
      exact hLonger [next] (List.cons_ne_nil _ _) ⟨rest, rfl⟩ ⟨longer, hEnds⟩
  rw [List.cons_append, afterItem_dot (by simp), afterItem_of_not_longer h.endsInItem hLonger] at hScan
  exact hScan

theorem items_of_runsOn (h : RunsOn text) : items text = .error .unexpectedAfterIndex := by
  obtain ⟨start, next, rest, rfl, hLongest, hDot, hOpening⟩ := h
  rw [hLongest.items_append, faultAt, if_neg (not_or.mpr ⟨hDot, hOpening⟩)]

theorem items_of_not_runsOn (h : ¬ RunsOn text) (hNone : ∀ chain, ¬ Spelled chain text) :
    items text = .error .invalidIndex := by
  by_cases hStart : ∃ start, IsLongestStart start text
  · obtain ⟨start, hLongest⟩ := hStart
    obtain ⟨rest, rfl⟩ := hLongest.isStart
    cases rest with
    | nil =>
      obtain ⟨chain, _, hChain⟩ := hLongest.endsInItem
      rw [List.append_nil] at hNone
      exact absurd hChain (hNone chain)
    | cons next rest =>
      have hNext : next = '.' ∨ next = '[' := by
        by_contra hOther
        exact h ⟨start, next, rest, rfl, hLongest, not_or.mp hOther⟩
      rw [hLongest.items_append, faultAt, if_pos hNext]
  · have hSome : text ≠ [] := by
      rintro rfl
      exact hNone [] .nil
    refine items_of_not_prefix hSome fun item hItem hPrefix => hStart ?_
    have hFirst : Spelled [item] (item.text ++ []) := .first hItem .nil
    rw [List.append_nil] at hFirst
    exact exists_isLongestStart ⟨[item], List.cons_ne_nil _ _, hFirst⟩ hPrefix

end Longest

section Text

variable {text : String} {chain : List Item} {keys : List String}

theorem tokenize_of_spelled (h : Spelled chain text.toList) :
    tokenize text = .ok (chain.filterMap Item.key?) := by
  rw [tokenize, items_of_spelled h]
  rfl

theorem tokenize_of_runsOn (h : RunsOn text.toList) :
    tokenize text = .error ⟨.unexpectedAfterIndex, text⟩ := by
  rw [tokenize, items_of_runsOn h]
  rfl

theorem tokenize_of_not_runsOn (h : ¬ RunsOn text.toList)
    (hNone : ∀ chain, ¬ Spelled chain text.toList) :
    tokenize text = .error ⟨.invalidIndex, text⟩ := by
  rw [tokenize, items_of_not_runsOn h hNone]
  rfl

theorem tokenize_eq_ok_iff :
    tokenize text = .ok keys ↔
      ∃ chain, Spelled chain text.toList ∧ keys = chain.filterMap Item.key? := by
  constructor
  · intro hKeys
    by_cases hSpelled : ∃ chain, Spelled chain text.toList
    · obtain ⟨chain, hChain⟩ := hSpelled
      rw [tokenize_of_spelled hChain] at hKeys
      exact ⟨chain, hChain, (Except.ok.inj hKeys).symm⟩
    by_cases hRuns : RunsOn text.toList
    · cases (tokenize_of_runsOn hRuns).symm.trans hKeys
    · cases (tokenize_of_not_runsOn hRuns (not_exists.mp hSpelled)).symm.trans hKeys
  · rintro ⟨chain, hChain, rfl⟩
    exact tokenize_of_spelled hChain

end Text

/-- Path text is accepted if it is a chain of items, and its keys are theirs. Other text is at fault
for what follows its longest start that ends in an item. -/
theorem tokenize_grammar (text : String) :
    (∀ keys, tokenize text = .ok keys ↔
      ∃ chain, Spelled chain text.toList ∧ keys = chain.filterMap Item.key?) ∧
    ∀ malformed, tokenize text = .error malformed ↔
      (∀ chain, ¬ Spelled chain text.toList) ∧
        (RunsOn text.toList ∧ malformed = ⟨.unexpectedAfterIndex, text⟩ ∨
          ¬ RunsOn text.toList ∧ malformed = ⟨.invalidIndex, text⟩) := by
  refine ⟨fun keys => tokenize_eq_ok_iff, fun malformed => ⟨fun hFault => ?_, ?_⟩⟩
  · have hNone (chain : List Item) : ¬ Spelled chain text.toList := by
      intro hChain
      cases (tokenize_of_spelled hChain).symm.trans hFault
    refine ⟨hNone, ?_⟩
    by_cases hRuns : RunsOn text.toList
    · rw [tokenize_of_runsOn hRuns] at hFault
      exact .inl ⟨hRuns, (Except.error.inj hFault).symm⟩
    · rw [tokenize_of_not_runsOn hRuns hNone] at hFault
      exact .inr ⟨hRuns, (Except.error.inj hFault).symm⟩
  · rintro ⟨hNone, ⟨hRuns, rfl⟩ | ⟨hRuns, rfl⟩⟩
    · exact tokenize_of_runsOn hRuns
    · exact tokenize_of_not_runsOn hRuns hNone

end Wiring.Path
