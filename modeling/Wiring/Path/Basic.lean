import Wiring.Path.Keys
import Wiring.Value.Basic

/-! # Paths

A path leads from a value to one inside it, by path text, by ready keys or by one position.
-/
namespace Wiring
set_option autoImplicit false

inductive Path where
  | whole
  | index (position : Nat)
  | text (source : String)
  | keys (keys : List String)
  deriving DecidableEq, Inhabited

namespace Path

def display : Path → String
  | whole => ""
  | index position => "[" ++ Position.text position ++ "]"
  | text source => source
  | keys list => ".".intercalate list

/-- The keys along a path; the whole value has none at all. -/
def keys? : Path → Except Malformed (Option (List String))
  | whole => .ok none
  | index position => .ok (some [Position.text position])
  | text source => (tokenize source).map some
  | keys list => .ok (some list)

end Path

namespace Value

/-- One step of a path: a child if there is one, else a property. -/
def step? (key : String) (value : Value) : Option Value :=
  (value.child? key).or (value.property? key)

def at? (value : Value) : List String → Option Value
  | [] => some value
  | key :: rest => (value.step? key).bind (·.at? rest)

/-- What a read has come to: a part of the value that is read, or a value of its own. -/
inductive Reading where
  | borrowed (value : Value)
  | owned (value : Value)

namespace Reading

def value : Reading → Value
  | borrowed value => value
  | owned value => value

/-- A child is borrowed from what is itself borrowed. A property never is. -/
def step? (key : String) : Reading → Option Reading
  | borrowed value =>
    match value.child? key with
    | some child => some (borrowed child)
    | none => (value.property? key).map owned
  | owned value => ((value.child? key).or (value.property? key)).map owned

def walk? (reading : Reading) : List String → Option Reading
  | [] => some reading
  | key :: rest => (reading.step? key).bind (·.walk? rest)

theorem map_value_step? (reading : Reading) (key : String) :
    (reading.step? key).map value = reading.value.step? key := by
  cases reading with
  | borrowed source =>
    rw [step?, value, Value.step?]
    cases source.child? key with
    | some child => rfl
    | none => cases source.property? key <;> rfl
  | owned source =>
    rw [step?, value, Value.step?, Option.map_map]
    exact Option.map_id'

/-- Reads find the same whether they borrow or not. -/
theorem map_value_walk? (reading : Reading) (keys : List String) :
    (reading.walk? keys).map value = reading.value.at? keys := by
  induction keys generalizing reading with
  | nil => rfl
  | cons key rest ih =>
    rw [walk?, at?, ← map_value_step?]
    cases reading.step? key with
    | none => rfl
    | some next => exact ih next

end Reading

/-- Reads the value at a path. A path that leads nowhere is no error. -/
def get? (value : Value) (path : Path) : Except Path.Malformed (Option Value) :=
  path.keys?.map fun
    | none => some value
    | some keys => ((Reading.borrowed value).walk? keys).map Reading.value

theorem get?_of_keys? {path : Path} {keys : List String} (h : path.keys? = .ok (some keys))
    (value : Value) : value.get? path = .ok (value.at? keys) := by
  rw [get?, h]
  exact congrArg Except.ok (Reading.map_value_walk? (.borrowed value) keys)

theorem at?_append (value : Value) (first second : List String) :
    value.at? (first ++ second) = (value.at? first).bind (·.at? second) := by
  induction first generalizing value with
  | nil => rfl
  | cons key rest ih =>
    simp only [List.cons_append, at?, Option.bind_assoc]
    exact congrArg _ (funext fun next => ih next)

end Value
end Wiring
