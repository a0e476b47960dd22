import Mathlib.Data.List.Induction
import Mathlib.Data.List.TakeWhile
import Wiring.CommandLine
import Wiring.Proofs.Template.Malformed

/-! # Tokens of command lines

The first `--` divides a command line. What stands after it are files. What stands before it are
files too, but for the tokens that begin with a dash: these are switches, of which the last one
counts, or unknown, and then the first of them is reported.
-/
namespace Wiring.CommandLine
set_option autoImplicit false

/-- The token is taken as a switch. -/
def IsDashed (token : String) : Prop := ['-'] <+: token.toList

instance : DecidablePred IsDashed := fun token =>
  inferInstanceAs (Decidable (['-'] <+: token.toList))

def switches : List (String × Verbosity) :=
  [("-q", .quiet), ("--quiet", .quiet), ("-v", .trace), ("--verbose", .trace)]

def IsUnknown (token : String) : Prop := IsDashed token ∧ token ∉ Entries.keys switches

/-- The tokens before the first `--` and those after it, which are none where there is no `--`. -/
inductive Divided : (tokens before after : List String) → Prop
  | whole {tokens : List String} : "--" ∉ tokens → Divided tokens tokens []
  | parted {before : List String} (after : List String) : "--" ∉ before →
    Divided (before ++ "--" :: after) before after

/-- No token before this one is unknown. -/
def IsFirstUnknown (tokens : List String) (token : String) : Prop :=
  IsUnknown token ∧ ∃ front back, tokens = front ++ token :: back ∧
    ∀ other ∈ front, ¬ IsUnknown other

/-- The last switch decides, and without any switch the verbosity is normal. -/
inductive Decides : (tokens : List String) → Verbosity → Prop
  | default {tokens : List String} : (∀ token ∈ tokens, token ∉ Entries.keys switches) →
    Decides tokens .normal
  | last {token : String} {verbosity : Verbosity} (front : List String) {back : List String} :
    (token, verbosity) ∈ switches → (∀ other ∈ back, other ∉ Entries.keys switches) →
    Decides (front ++ token :: back) verbosity

theorem switch?_eq_get? (token : String) : switch? token = Entries.get? token switches := by
  rw [switch?]
  by_cases hQuiet : token = "-q" ∨ token = "--quiet"
  · rcases hQuiet with rfl | rfl <;> rfl
  · by_cases hTrace : token = "-v" ∨ token = "--verbose"
    · rcases hTrace with rfl | rfl <;> rfl
    · rw [if_neg hQuiet, if_neg hTrace]
      simp only [not_or] at hQuiet hTrace
      simp only [switches, Entries.get?, Ne.symm hQuiet.1, Ne.symm hQuiet.2, Ne.symm hTrace.1,
        Ne.symm hTrace.2, if_false]

theorem switch?_eq_some_iff {token : String} {verbosity : Verbosity} :
    switch? token = some verbosity ↔ (token, verbosity) ∈ switches := by
  rw [switch?_eq_get?]
  exact ⟨Entries.mem_of_get?, Entries.get?_of_mem (by decide)⟩

theorem switch?_eq_none_iff {token : String} :
    switch? token = none ↔ token ∉ Entries.keys switches := by
  rw [switch?_eq_get?, Entries.get?_eq_none_iff]

theorem isDashed_iff {token : String} : IsDashed token ↔ token.toList.head? = some '-' := by
  rw [IsDashed]
  cases token.toList with
  | nil => simp
  | cons c rest => simp [eq_comm]

theorem isDashed_of_mem_switches {token : String} (h : token ∈ Entries.keys switches) :
    IsDashed token := by
  have hAll : ∀ token ∈ Entries.keys switches, IsDashed token := by decide
  exact hAll token h

theorem switch?_of_not_isDashed {token : String} (h : ¬ IsDashed token) : switch? token = none :=
  switch?_eq_none_iff.mpr fun hMem => h (isDashed_of_mem_switches hMem)

def verbosityAfter (verbosity : Verbosity) (tokens : List String) : Verbosity :=
  tokens.foldl (fun verbosity token => (switch? token).getD verbosity) verbosity

def extended (line : CommandLine) (tokens : List String) : CommandLine where
  files := line.files ++ tokens.filter fun token => ¬ IsDashed token
  verbosity := verbosityAfter line.verbosity tokens

theorem readOnto_cons {token : String} (hKnown : ¬ IsUnknown token) (hDashes : token ≠ "--")
    (line : CommandLine) (rest : List String) :
    readOnto line (token :: rest) = readOnto (line.extended [token]) rest := by
  rw [readOnto]
  by_cases hDashed : IsDashed token
  · have hSwitch : token ∈ Entries.keys switches := by
      by_contra hNone
      exact hKnown ⟨hDashed, hNone⟩
    obtain ⟨verbosity, hSays⟩ := Option.ne_none_iff_exists'.mp
      (mt switch?_eq_none_iff.mp (not_not_intro hSwitch))
    rw [if_neg (not_not_intro (isDashed_iff.mp hDashed)), if_neg hDashes, hSays]
    simp [extended, verbosityAfter, hDashed, hSays]
  · rw [if_pos (mt isDashed_iff.mpr hDashed)]
    simp [extended, verbosityAfter, hDashed, switch?_of_not_isDashed hDashed]

theorem extended_append (line : CommandLine) (first second : List String) :
    line.extended (first ++ second) = (line.extended first).extended second := by
  simp [extended, verbosityAfter]

/-- Known tokens are read whatever follows. -/
theorem readOnto_append {known : List String} (hKnown : ∀ token ∈ known, ¬ IsUnknown token)
    (hDashes : "--" ∉ known) (line : CommandLine) (rest : List String) :
    readOnto line (known ++ rest) = readOnto (line.extended known) rest := by
  induction known generalizing line with
  | nil => simp [extended, verbosityAfter]
  | cons token known ih =>
    obtain ⟨hToken, hMore⟩ := List.forall_mem_cons.mp hKnown
    rw [List.mem_cons, not_or] at hDashes
    rw [List.cons_append, readOnto_cons hToken (Ne.symm hDashes.1), ih hMore hDashes.2,
      ← extended_append, List.singleton_append]

theorem readOnto_of_isUnknown {token : String} (h : IsUnknown token) (hDashes : token ≠ "--")
    (line : CommandLine) (rest : List String) :
    readOnto line (token :: rest) =
      .error { kind := .invalidArgument, message := "invalid argument " ++ token } := by
  obtain ⟨hDashed, hNone⟩ := h
  have hSome : token ≠ "" := by
    rintro rfl
    exact absurd hDashed (by decide)
  have hMessage : Template.interpolate "invalid argument" [.string token] =
      "invalid argument " ++ token := by
    rw [Template.interpolate, Template.render_text (by decide) hSome]
    rfl
  rw [readOnto, if_neg (not_not_intro (isDashed_iff.mp hDashed)), if_neg hDashes,
    switch?_eq_none_iff.mpr hNone, ← hMessage]
  rfl

theorem readOnto_dashes (line : CommandLine) (rest : List String) :
    readOnto line ("--" :: rest) = .ok { line with files := line.files ++ rest } := rfl

theorem verbosityAfter_of_not_mem {tokens : List String}
    (h : ∀ token ∈ tokens, token ∉ Entries.keys switches) (verbosity : Verbosity) :
    verbosityAfter verbosity tokens = verbosity := by
  induction tokens with
  | nil => rfl
  | cons token rest ih =>
    obtain ⟨hToken, hRest⟩ := List.forall_mem_cons.mp h
    rw [verbosityAfter, List.foldl_cons, switch?_eq_none_iff.mpr hToken]
    exact ih hRest

theorem decides_verbosityAfter (tokens : List String) :
    Decides tokens (verbosityAfter .normal tokens) := by
  induction tokens using List.reverseRecOn with
  | nil => exact .default nofun
  | append_singleton front token ih =>
    rw [verbosityAfter, List.foldl_concat, ← verbosityAfter]
    cases hSwitch : switch? token with
    | some verbosity => exact .last front (switch?_eq_some_iff.mp hSwitch) nofun
    | none =>
      have hToken : token ∉ Entries.keys switches := switch?_eq_none_iff.mp hSwitch
      rw [Option.getD_none]
      generalize verbosityAfter .normal front = verbosity at ih
      cases ih with
      | default hNone =>
        refine .default fun other hMem => ?_
        rcases List.mem_append.mp hMem with hFront | hLast
        · exact hNone other hFront
        · exact List.mem_singleton.mp hLast ▸ hToken
      | last first hMem hNone =>
        rw [List.append_assoc, List.cons_append]
        refine .last first hMem fun other hOther => ?_
        rcases List.mem_append.mp hOther with hBack | hLast
        · exact hNone other hBack
        · exact List.mem_singleton.mp hLast ▸ hToken

theorem decides_iff {tokens : List String} {verbosity : Verbosity} :
    Decides tokens verbosity ↔ verbosityAfter .normal tokens = verbosity := by
  constructor
  · rintro (hNone | ⟨front, hSwitch, hNone⟩)
    · exact verbosityAfter_of_not_mem hNone .normal
    · rw [verbosityAfter, List.foldl_append, List.foldl_cons, switch?_eq_some_iff.mpr hSwitch]
      exact verbosityAfter_of_not_mem hNone _
  · rintro rfl
    exact decides_verbosityAfter tokens

theorem exists_divided (tokens : List String) : ∃ before after, Divided tokens before after := by
  by_cases hDashes : "--" ∈ tokens
  · obtain ⟨before, after, rfl, hBefore⟩ := List.eq_append_cons_of_mem hDashes
    exact ⟨before, after, .parted after hBefore⟩
  · exact ⟨tokens, [], .whole hDashes⟩

theorem Divided.eq_span {tokens before after : List String} (h : Divided tokens before after) :
    before = tokens.takeWhile (· ≠ "--") ∧ after = (tokens.dropWhile (· ≠ "--")).tail := by
  have hOthers (hDashes : "--" ∉ before) : ∀ token ∈ before, decide (token ≠ "--") = true :=
    fun token hMem => decide_eq_true (ne_of_mem_of_not_mem hMem hDashes)
  cases h with
  | whole hDashes =>
    rw [List.takeWhile_eq_self_iff.mpr (hOthers hDashes),
      List.dropWhile_eq_nil_iff.mpr (hOthers hDashes)]
    exact ⟨rfl, rfl⟩
  | parted after hDashes =>
    rw [List.takeWhile_append_of_pos (hOthers hDashes),
      List.dropWhile_append_of_pos (hOthers hDashes)]
    simp

theorem Divided.unique {tokens before after front back : List String}
    (h : Divided tokens before after) (hOther : Divided tokens front back) :
    front = before ∧ back = after :=
  ⟨hOther.eq_span.1.trans h.eq_span.1.symm, hOther.eq_span.2.trans h.eq_span.2.symm⟩

theorem exists_isFirstUnknown {tokens : List String} (h : ∃ token ∈ tokens, IsUnknown token) :
    ∃ token, IsFirstUnknown tokens token := by
  induction tokens with
  | nil => simp at h
  | cons first rest ih =>
    by_cases hFirst : IsUnknown first
    · exact ⟨first, hFirst, [], rest, rfl, nofun⟩
    · obtain ⟨token, hMem, hToken⟩ := h
      have hRest : token ∈ rest := by
        rcases List.mem_cons.mp hMem with rfl | hRest
        · exact absurd hToken hFirst
        · exact hRest
      obtain ⟨found, hFound, front, back, rfl, hKnown⟩ := ih ⟨token, hRest, hToken⟩
      exact ⟨found, hFound, first :: front, back, rfl, List.forall_mem_cons.mpr ⟨hFirst, hKnown⟩⟩

variable {tokens before after : List String}

theorem read_of_known (h : Divided tokens before after)
    (hKnown : ∀ token ∈ before, ¬ IsUnknown token) :
    read tokens = .ok {
      files := before.filter (fun token => ¬ IsDashed token) ++ after
      verbosity := verbosityAfter .normal before } := by
  cases h with
  | whole hDashes =>
    have hRead := readOnto_append hKnown hDashes {} []
    rw [List.append_nil] at hRead
    rw [read, hRead, readOnto, List.append_nil]
    rfl
  | parted after hDashes => rw [read, readOnto_append hKnown hDashes, readOnto_dashes]; rfl

theorem read_of_isFirstUnknown {token : String} (h : Divided tokens before after)
    (hFirst : IsFirstUnknown before token) :
    read tokens =
      .error { kind := .invalidArgument, message := "invalid argument " ++ token } := by
  obtain ⟨hUnknown, front, back, rfl, hKnown⟩ := hFirst
  have hRest : ∃ rest, tokens = front ++ token :: rest ∧ "--" ∉ front ++ [token] := by
    cases h with
    | whole hDashes =>
      refine ⟨back, rfl, fun hMem => hDashes ?_⟩
      rw [List.append_cons]
      exact List.mem_append_left back hMem
    | parted after hDashes =>
      refine ⟨back ++ "--" :: after, by rw [List.append_assoc, List.cons_append], fun hMem =>
        hDashes ?_⟩
      rw [List.append_cons]
      exact List.mem_append_left back hMem
  obtain ⟨rest, rfl, hDashes⟩ := hRest
  rw [List.mem_append, List.mem_singleton, not_or] at hDashes
  rw [read, readOnto_append hKnown hDashes.1, readOnto_of_isUnknown hUnknown (Ne.symm hDashes.2)]

theorem exists_isFirstUnknown_or (tokens : List String) :
    (∃ token, IsFirstUnknown tokens token) ∨ ∀ token ∈ tokens, ¬ IsUnknown token := by
  by_cases hUnknown : ∃ token ∈ tokens, IsUnknown token
  · exact .inl (exists_isFirstUnknown hUnknown)
  · exact .inr fun token hMem hToken => hUnknown ⟨token, hMem, hToken⟩

theorem IsFirstUnknown.mem {token : String} (h : IsFirstUnknown tokens token) : token ∈ tokens := by
  obtain ⟨_, front, back, rfl, _⟩ := h
  exact List.mem_append_right front List.mem_cons_self

theorem read_eq_error_iff (h : Divided tokens before after) {failure : Failure} :
    read tokens = .error failure ↔ ∃ token, IsFirstUnknown before token ∧
      failure = { kind := .invalidArgument, message := "invalid argument " ++ token } := by
  constructor
  · intro hError
    rcases exists_isFirstUnknown_or before with ⟨token, hFirst⟩ | hKnown
    · rw [read_of_isFirstUnknown h hFirst] at hError
      exact ⟨token, hFirst, (Except.error.inj hError).symm⟩
    · rw [read_of_known h hKnown] at hError
      cases hError
  · rintro ⟨token, hFirst, rfl⟩
    exact read_of_isFirstUnknown h hFirst

theorem kind_of_read_eq_error {failure : Failure} (h : read tokens = .error failure) :
    failure.kind = .invalidArgument := by
  obtain ⟨before, after, hDivided⟩ := exists_divided tokens
  obtain ⟨token, _, rfl⟩ := (read_eq_error_iff hDivided).mp h
  rfl

theorem read_eq_ok_iff (h : Divided tokens before after) {line : CommandLine} :
    read tokens = .ok line ↔ (∀ token ∈ before, ¬ IsUnknown token) ∧
      line.files = before.filter (fun token => ¬ IsDashed token) ++ after ∧
      Decides before line.verbosity := by
  constructor
  · intro hOk
    rcases exists_isFirstUnknown_or before with ⟨token, hFirst⟩ | hKnown
    · rw [read_of_isFirstUnknown h hFirst] at hOk
      cases hOk
    · rw [read_of_known h hKnown] at hOk
      cases hOk
      exact ⟨hKnown, rfl, decides_verbosityAfter before⟩
  · rintro ⟨hKnown, hFiles, hVerbosity⟩
    rw [read_of_known h hKnown, ← hFiles, decides_iff.mp hVerbosity]

/-- A command line is divided in one way. It is refused for the first unknown token before the first
`--`, and read if there is none. Then the files are the tokens there without a dash in front and all
tokens after the `--`, in order, and the last switch decides on the verbosity. -/
theorem read_divided (tokens : List String) :
    ∃ before after, Divided tokens before after ∧
      (∀ front back, Divided tokens front back → front = before ∧ back = after) ∧
      ((∃ failure, read tokens = .error failure) ↔ ∃ token ∈ before, IsUnknown token) ∧
      (∀ failure, read tokens = .error failure ↔ ∃ token, IsFirstUnknown before token ∧
        failure = { kind := .invalidArgument, message := "invalid argument " ++ token }) ∧
      ∀ line, read tokens = .ok line ↔ (∀ token ∈ before, ¬ IsUnknown token) ∧
        line.files = before.filter (fun token => ¬ IsDashed token) ++ after ∧
        Decides before line.verbosity := by
  obtain ⟨before, after, hDivided⟩ := exists_divided tokens
  refine ⟨before, after, hDivided, fun front back => hDivided.unique, ?_,
    fun failure => read_eq_error_iff hDivided, fun line => read_eq_ok_iff hDivided⟩
  constructor
  · rintro ⟨failure, hError⟩
    obtain ⟨token, hFirst, _⟩ := (read_eq_error_iff hDivided).mp hError
    exact ⟨token, hFirst.mem, hFirst.1⟩
  · intro hUnknown
    obtain ⟨token, hFirst⟩ := exists_isFirstUnknown hUnknown
    exact ⟨_, read_of_isFirstUnknown hDivided hFirst⟩

example : read ["-q", "kieli", "--", "-v", "--"] =
    .ok { files := ["kieli", "-v", "--"], verbosity := .quiet } := by decide

end Wiring.CommandLine
