import Wiring.Path.Basic
import Wiring.Value.Display

/-! # Message templates

A template is text with placeholders in braces. A placeholder names a value by its place among the
arguments, counting from one, or by a path into them; an empty placeholder is the first argument.
-/
namespace Wiring

def Path.Fault.message : Path.Fault → String
  | invalidIndex => "invalid index"
  | unexpectedAfterIndex => "unexpected character after index"

def Path.Malformed.message (malformed : Path.Malformed) : String :=
  if malformed.text.isEmpty then malformed.fault.message
  else malformed.fault.message ++ " " ++ malformed.text

namespace Template
set_option autoImplicit false

inductive Piece where
  | literal (c : Char)
  | placeholder (target : Path)
  deriving DecidableEq, Inhabited

def isPlaceholderChar (c : Char) : Bool :=
  c.isAlphanum || c == '_' || c == '.' || c == '[' || c == ']' || c == '-'

def maxPlaceholder : Nat := 79

/-- The placeholder that starts right after an opening brace, and what follows its closing
brace. -/
def placeholder? (text : List Char) : Option (List Char × List Char) :=
  match text.dropWhile isPlaceholderChar with
  | c :: rest =>
    let name := text.takeWhile isPlaceholderChar
    if c = '}' ∧ name.length ≤ maxPlaceholder then some (name, rest) else none
  | [] => none

/-- A number without leading zeros that fits 64 bits counts arguments; other names are paths. -/
def target (name : List Char) : Path :=
  if name.isEmpty then .index 0
  else if name.all Char.isDigit && name.head? != some '0' &&
      Position.number name < Nat.pow 2 64 then
    .index (Position.number name - 1)
  else .text (String.ofList name)

theorem length_of_placeholder? {text name rest : List Char}
    (h : placeholder? text = some (name, rest)) : rest.length < text.length := by
  have hle := (List.dropWhile_suffix isPlaceholderChar (l := text)).length_le
  simp only [placeholder?] at h
  split at h
  · rename_i c tail e
    split at h
    · simp only [Option.some.injEq, Prod.mk.injEq] at h
      rw [e, h.2, List.length_cons] at hle
      omega
    · simp at h
  · simp at h

/-- An opening brace without a placeholder stands for itself. -/
def pieces (text : List Char) : List Piece :=
  match text with
  | [] => []
  | c :: rest =>
    if c = '{' then
      match _h : placeholder? rest with
      | some (name, after) => .placeholder (target name) :: pieces after
      | none => .literal c :: pieces rest
    else .literal c :: pieces rest
termination_by text.length
decreasing_by
  · have := length_of_placeholder? _h
    simp only [List.length_cons]
    omega
  · simp
  · simp

/-- What placeholders look into: a lone container or object, or the sequence of all arguments. -/
def source : List Value → Value
  | [single] => if single.isAggregate then single else .sequence [single]
  | args => .sequence args

def fill (source : Value) : List Piece → Except Path.Malformed (List Char)
  | [] => .ok []
  | .literal c :: rest => do
    return c :: (← fill source rest)
  | .placeholder path :: rest => do
    let found ← source.get? path
    return (found.getD .null).display.toList ++ (← fill source rest)

/-- A sequence of one value other than null is shown as that value. -/
def trailer : Value → String
  | .sequence [.null] => Value.display (.sequence [.null])
  | .sequence [single] => single.display
  | source => source.display

/-- Arguments that no placeholder shows are written after the text. -/
def withTrailer (source : Value) (text : String) : String :=
  if source.isEmptyContainer || (trailer source).isEmpty then text
  else text ++ " " ++ trailer source

def isPlaceholder : Piece → Bool
  | .placeholder _ => true
  | .literal _ => false

def render (template : String) (args : List Value) : Except Path.Malformed String := do
  let parts := pieces template.toList
  let text := String.ofList (← fill (source args) parts)
  return if parts.any isPlaceholder then text else withTrailer (source args) text

/-- Writes arguments into a template. A malformed path is reported instead of the text. -/
def interpolate (template : String) (args : List Value) : String :=
  match render template args with
  | .ok text => text
  | .error malformed => malformed.message

end Template
end Wiring
