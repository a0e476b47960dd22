import Wiring.Context

/-! # Leaves of settings

A setting is stored as the leaves of its value are written one after the other, whatever containers
they stand in (`setConfig_eq_write`). So nothing but the settings changes.
-/
namespace Wiring.Context
set_option autoImplicit false

mutual

/-- The leaves of a value under a key, each with the key and the text that it is stored as. -/
def leaves (key : String) : Value → List (String × String)
  | .string text => [(key, text)]
  | .mapping entries => entryLeaves (key ++ ".") entries
  | .sequence items => itemLeaves (key ++ ".") 0 items
  | value => [(key, if value.isFalsy then "" else value.display)]

def entryLeaves (lead : String) : List (String × Value) → List (String × String)
  | [] => []
  | (key, value) :: rest => leaves (lead ++ key) value ++ entryLeaves lead rest

def itemLeaves (lead : String) (position : Nat) : List Value → List (String × String)
  | [] => []
  | item :: rest =>
    leaves (lead ++ Position.text position) item ++ itemLeaves lead (position + 1) rest

end

def write (context : Context) (pairs : List (String × String)) : Context :=
  { context with
    settings := pairs.foldl (fun table pair => table.set pair.1 pair.2) context.settings }

theorem write_append (context : Context) (first second : List (String × String)) :
    context.write (first ++ second) = (context.write first).write second := by
  rw [write, List.foldl_append]
  rfl

mutual

theorem setConfig_eq_write (context : Context) (key : String) (value : Value) :
    context.setConfig key value = context.write (leaves key value) := by
  cases value with
  | mapping entries => exact storeEntries_eq_write context (key ++ ".") entries
  | sequence items => exact storeItems_eq_write context (key ++ ".") 0 items
  | _ => rfl

theorem storeEntries_eq_write (context : Context) (lead : String)
    (entries : List (String × Value)) :
    context.storeEntries lead entries = context.write (entryLeaves lead entries) := by
  cases entries with
  | nil => rfl
  | cons entry rest =>
    obtain ⟨key, value⟩ := entry
    rw [storeEntries, setConfig_eq_write, storeEntries_eq_write, entryLeaves, write_append]

theorem storeItems_eq_write (context : Context) (lead : String) (position : Nat)
    (items : List Value) :
    context.storeItems lead position items = context.write (itemLeaves lead position items) := by
  cases items with
  | nil => rfl
  | cons item rest =>
    rw [storeItems, setConfig_eq_write, storeItems_eq_write, itemLeaves, write_append]

end

theorem registrations_setConfig (context : Context) (key : String) (value : Value) :
    (context.setConfig key value).registrations = context.registrations := by
  rw [setConfig_eq_write]
  rfl

theorem registrations_of_setConfigAll {context changed : Context} {settings : Value}
    (h : context.setConfigAll settings = .ok changed) :
    changed.registrations = context.registrations := by
  cases settings with
  | mapping entries =>
    cases h
    rw [storeEntries_eq_write]
    rfl
  | sequence items =>
    cases h
    rw [storeItems_eq_write]
    rfl
  | _ => cases h <;> rfl

end Wiring.Context
