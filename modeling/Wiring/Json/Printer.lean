import Wiring.Binary64.Layout
import Wiring.Value.Basic

/-! # JSON text of values

Compact text, with slashes and non-ASCII characters as they are. A float that is not finite and a
byte string that is not UTF-8 have no JSON text, and neither has a value that holds one.
-/
namespace Wiring.Json
set_option autoImplicit false

inductive Unwritable where
  | nonFiniteFloat
  | malformedBytes
  deriving DecidableEq

def Unwritable.message : Unwritable → String
  | nonFiniteFloat => "non-finite float"
  | malformedBytes => "malformed UTF-8 in byte string"

def escape (c : Char) : List Char :=
  if c = '"' then ['\\', '"']
  else if c = '\\' then ['\\', '\\']
  else if c = '\n' then ['\\', 'n']
  else if c = '\r' then ['\\', 'r']
  else if c = '\t' then ['\\', 't']
  else if c = '\x08' then ['\\', 'b']
  else if c = '\x0c' then ['\\', 'f']
  else if c.toNat < 0x20 then
    ['\\', 'u', '0', '0', Nat.digitChar (c.toNat / 16), Nat.digitChar (c.toNat % 16)]
  else [c]

def quoted (text : String) : List Char :=
  '"' :: text.toList.flatMap escape ++ ['"']

def joined : List (List Char) → List Char
  | [] => []
  | [part] => part
  | part :: rest => part ++ ',' :: joined rest

mutual

/-- Objects are written as the value they stand for, thunks as empty mappings. -/
def written : Value → Except Unwritable (List Char)
  | .null => pure "null".toList
  | .bool value => pure (if value then "true" else "false").toList
  | .integer value => pure (toString value.toInt).toList
  | .float value =>
    if value.isFinite then pure (Binary64.Layout.json.text value).toList
    else throw .nonFiniteFloat
  | .string text => pure (quoted text)
  | .bytes data =>
    match String.fromUTF8? data with
    | some text => pure (quoted text)
    | none => throw .malformedBytes
  | .sequence items => do
    return '[' :: joined (← writtenItems items) ++ [']']
  | .mapping entries => do
    return '{' :: joined (← writtenEntries entries) ++ ['}']
  | .object _ _ _ form => written form
  | .thunk _ _ => pure ['{', '}']

def writtenItems : List Value → Except Unwritable (List (List Char))
  | [] => pure []
  | item :: rest => do
    let first ← written item
    return first :: (← writtenItems rest)

def writtenEntries : List (String × Value) → Except Unwritable (List (List Char))
  | [] => pure []
  | (key, value) :: rest => do
    let first ← written value
    return (quoted key ++ ':' :: first) :: (← writtenEntries rest)

end

def print (value : Value) : Except Unwritable String :=
  (written value).map String.ofList

end Wiring.Json
