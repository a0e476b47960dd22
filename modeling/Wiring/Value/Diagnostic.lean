import Wiring.Binary64.Layout
import Wiring.Text.Unprintable
import Wiring.Value.Basic

/-! # Diagnostic text

Diagnostic text names the kind of each value and escapes what cannot be seen.
-/
namespace Wiring.Diagnostic
set_option autoImplicit false

def escape (c : Char) : String :=
  if c = '\x00' then "\\0"
  else if c = '\t' then "\\t"
  else if c = '\r' then "\\r"
  else if c = '\n' then "\\n"
  else if c = '\\' then "\\\\"
  else if c = '"' then "\\\""
  else if Text.isUnprintable c then
    "\\u\x7b" ++ String.ofList (Nat.toDigits 16 c.toNat) ++ "\x7d"
  else c.toString

def quoted (text : String) : String :=
  "\"" ++ String.join (text.toList.map escape) ++ "\""

def tagged (tag body : String) : String := tag ++ "(" ++ body ++ ")"

def listed (parts : List String) : String := "[" ++ ", ".intercalate parts ++ "]"

end Wiring.Diagnostic

namespace Wiring.Value
open Diagnostic
set_option autoImplicit false

mutual

def diagnostic : Value → String
  | null => "Null"
  | bool value => tagged "Bool" (if value then "true" else "false")
  | integer value => tagged "Integer" (toString value.toInt)
  | float value => tagged "Float" (Binary64.Layout.diagnostic.text value)
  | string text => tagged "String" (quoted text)
  | bytes data => tagged "Bytes" (listed (data.toList.map fun byte => toString byte.toNat))
  | sequence items => tagged "Sequence" (listed (diagnosticItems items))
  | mapping entries =>
    tagged "Mapping" ("\x7b" ++ ", ".intercalate (diagnosticEntries entries) ++ "\x7d")
  | object .. => tagged "Object" ".."
  | thunk .. => tagged "Thunk" ".."

def diagnosticItems : List Value → List String
  | [] => []
  | item :: rest => diagnostic item :: diagnosticItems rest

def diagnosticEntries : List (String × Value) → List String
  | [] => []
  | (key, value) :: rest => (quoted key ++ ": " ++ diagnostic value) :: diagnosticEntries rest

end

end Wiring.Value
