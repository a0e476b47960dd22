import Wiring.Binary64.Basic
import Wiring.Entries
import Wiring.Value.Position

/-! # Values

Values flow through path lookups, settings and message templates: scalars, containers,
objects that are read by property, and thunks that are called for their result.
-/
namespace Wiring
set_option autoImplicit false

/-- An object or thunk is known by its identity, not by what it holds. -/
inductive Value where
  | null
  | bool (value : Bool)
  | integer (value : Int64)
  | float (value : Binary64)
  | string (text : String)
  | bytes (data : ByteArray)
  | sequence (items : List Value)
  | mapping (entries : List (String × Value))
  | object (identity : Nat) (properties : List (String × Value)) (text : Option String)
      (form : Value)
  | thunk (identity : Nat) (result : Value)
  deriving Inhabited

namespace Value

def isNull : Value → Bool
  | null => true
  | _ => false

def isString : Value → Bool
  | string _ => true
  | _ => false

def isContainer : Value → Bool
  | sequence _ => true
  | mapping _ => true
  | _ => false

def isAggregate : Value → Bool
  | object .. => true
  | value => value.isContainer

def isEmptyContainer : Value → Bool
  | sequence items => items.isEmpty
  | mapping entries => entries.isEmpty
  | _ => false

/-- Null, false and zero of either kind and sign. -/
def isFalsy : Value → Bool
  | null => true
  | bool value => !value
  | integer value => value == 0
  | float value => value.isZero
  | _ => false

def asBool? : Value → Option Bool
  | bool value => some value
  | _ => none

def asInteger? : Value → Option Int64
  | integer value => some value
  | _ => none

def asFloat? : Value → Option Binary64
  | float value => some value
  | integer value => some (.ofInt value.toInt)
  | _ => none

def asText? : Value → Option String
  | string text => some text
  | _ => none

def size? : Value → Option Nat
  | sequence items => some items.length
  | mapping entries => some entries.length
  | _ => none

/-- An item is found by its position, an entry by its key. -/
def child? (key : String) : Value → Option Value
  | sequence items => (Position.ofText? key).bind (items[·]?)
  | mapping entries => Entries.get? key entries
  | _ => none

def property? (key : String) : Value → Option Value
  | object _ properties _ _ => Entries.get? key properties
  | _ => none

def typeName : Value → String
  | null => "null"
  | bool _ => "boolean"
  | integer _ => "integer"
  | float _ => "float"
  | string _ => "string"
  | bytes _ => "bytes"
  | sequence _ => "sequence"
  | mapping _ => "mapping"
  | object .. => "object"
  | thunk .. => "thunk"

/-- A count is an integer while it fits one, and the nearest float from there on. -/
def ofCount (n : Nat) : Value :=
  if n < Nat.pow 2 63 then integer (Int64.ofNat n) else float (.ofNat n)

def ofTexts (texts : List String) : Value := sequence (texts.map string)

def ofText? (text : Option String) : Value := text.elim null string

mutual

/-- No mapping holds a key twice, at any depth. -/
def WellFormed : Value → Prop
  | sequence items => ItemsWellFormed items
  | mapping entries => (Entries.keys entries).Nodup ∧ EntriesWellFormed entries
  | object _ properties _ form => EntriesWellFormed properties ∧ form.WellFormed
  | thunk _ result => result.WellFormed
  | _ => True

def ItemsWellFormed : List Value → Prop
  | [] => True
  | item :: rest => item.WellFormed ∧ ItemsWellFormed rest

def EntriesWellFormed : List (String × Value) → Prop
  | [] => True
  | (_, value) :: rest => value.WellFormed ∧ EntriesWellFormed rest

end

theorem isContainer_iff (value : Value) :
    value.isContainer = true ↔
      (∃ items, value = sequence items) ∨ ∃ entries, value = mapping entries := by
  cases value <;> simp [isContainer]

end Value
end Wiring
