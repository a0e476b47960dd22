import Wiring.Json.Printer

/-! # Display text

Every value has a display text. One that cannot be shown is shown as `invalid`.
-/
namespace Wiring.Value
set_option autoImplicit false

def invalidText : String := "invalid"

def maxThunkChain : Nat := 16

def jsonText (value : Value) : String :=
  match Json.print value with
  | .ok text => text
  | .error _ => invalidText

/-- The display text of a value at which `calls` more thunks may be called. -/
def displayWithin (calls : Nat) : Value → String
  | string text => text
  | thunk _ result =>
    match calls with
    | 0 => invalidText
    | calls + 1 => displayWithin calls result
  | bytes data => (String.fromUTF8? data).getD invalidText
  | null => "null"
  | bool true => "true"
  | bool false => "false"
  | integer value => toString value.toInt
  | object _ _ (some text) _ => text
  | value => jsonText value

/-- Strings as they are, thunks by their result, objects by their own text, anything else as
JSON. -/
def display (value : Value) : String := displayWithin maxThunkChain value

end Wiring.Value
