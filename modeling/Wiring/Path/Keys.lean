/-! # Path text

Path text is a chain of bare keys and bracketed keys, such as `servers[4].address`. A `.` stands
before each bare key but the first, and may stand before a bracket.
-/
namespace Wiring.Path
set_option autoImplicit false

inductive Fault where
  | invalidIndex
  | unexpectedAfterIndex
  deriving DecidableEq

structure Malformed where
  fault : Fault
  text : String
  deriving DecidableEq

def isBare (c : Char) : Bool := c != '[' && c != ']' && c != '.'

theorem isBare_iff (c : Char) : isBare c = true ↔ c ≠ '[' ∧ c ≠ ']' ∧ c ≠ '.' := by
  simp [isBare, and_assoc]

theorem length_dropWhile_le (p : Char → Bool) (text : List Char) :
    (text.dropWhile p).length ≤ text.length :=
  (List.dropWhile_suffix p).length_le

mutual

/-- The keys of text that starts with an item. Empty brackets give no key. -/
def items (text : List Char) : Except Fault (List String) :=
  match text with
  | [] => .ok []
  | c :: rest =>
    if c = '[' then
      match _h : rest.dropWhile (· != ']') with
      | [] => .error .invalidIndex
      | _ :: after =>
        let body := rest.takeWhile (· != ']')
        (afterItem after).map fun keys =>
          if body.isEmpty then keys else String.ofList body :: keys
    else if isBare c then
      (afterItem (rest.dropWhile isBare)).map (String.ofList (c :: rest.takeWhile isBare) :: ·)
    else .error .invalidIndex
termination_by (text.length, 0)
decreasing_by
  · have := length_dropWhile_le (· != ']') rest
    simp only [_h, List.length_cons] at this
    simp only [List.length_cons]
    exact Prod.Lex.left _ _ (by omega)
  · have := length_dropWhile_le isBare rest
    simp only [List.length_cons]
    exact Prod.Lex.left _ _ (by omega)

def afterItem (text : List Char) : Except Fault (List String) :=
  match text with
  | [] => .ok []
  | c :: rest =>
    if c = '.' then
      if rest.isEmpty then .error .invalidIndex else items rest
    else if c = '[' then items (c :: rest)
    else .error .unexpectedAfterIndex
termination_by (text.length, 1)
decreasing_by
  · exact Prod.Lex.left _ _ (by simp)
  · exact Prod.Lex.right _ (by decide)

end

/-- Splits path text into its keys. -/
def tokenize (text : String) : Except Malformed (List String) :=
  (items text.toList).mapError (⟨·, text⟩)

end Wiring.Path
