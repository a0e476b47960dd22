import Wiring.Entries

/-! # Tables

A table holds each key once, in the order in which the keys were first written.
-/
namespace Wiring
set_option autoImplicit false

structure Table (α : Type) where
  entries : List (String × α) := []
  nodup : (Entries.keys entries).Nodup := by exact List.nodup_nil

namespace Table

variable {α : Type}

def empty : Table α := {}

instance : Inhabited (Table α) := ⟨empty⟩

def keys (table : Table α) : List String := Entries.keys table.entries

def get? (table : Table α) (key : String) : Option α := Entries.get? key table.entries

def contains (table : Table α) (key : String) : Bool := (table.get? key).isSome

def set (table : Table α) (key : String) (value : α) : Table α :=
  ⟨Entries.set key value table.entries, Entries.nodup_keys_set table.nodup⟩

def erase (table : Table α) (key : String) : Table α :=
  ⟨Entries.erase key table.entries, Entries.nodup_keys_erase table.nodup⟩

def ofList (pairs : List (String × α)) : Table α :=
  ⟨Entries.ofList pairs, Entries.nodup_keys_ofList pairs⟩

def alike [BEq α] (left right : Table α) : Bool :=
  left.entries.length == right.entries.length &&
    left.entries.all fun entry => right.get? entry.1 == some entry.2

theorem get?_set (table : Table α) (key other : String) (value : α) :
    (table.set key value).get? other = if key = other then some value else table.get? other :=
  Entries.get?_set key other value table.entries

/-- Of pairs written into a table one after the other, a key has the value of its last one. -/
theorem get?_foldl_set (pairs : List (String × α)) (table : Table α) (key : String) :
    (pairs.foldl (fun table pair => table.set pair.1 pair.2) table).get? key =
      (Entries.get? key pairs.reverse).or (table.get? key) := by
  induction pairs generalizing table with
  | nil => rfl
  | cons pair rest ih =>
    rw [List.foldl_cons, ih, get?_set, List.reverse_cons, Entries.get?_append, Option.or_assoc,
      Entries.get?]
    split <;> rfl

theorem contains_iff (table : Table α) (key : String) :
    table.contains key = true ↔ key ∈ table.keys := by
  have h := Entries.get?_eq_none_iff key table.entries
  simp only [contains, get?, keys]
  cases e : Entries.get? key table.entries with
  | none => simp [h.mp e]
  | some value =>
    simp only [Option.isSome_some, true_iff]
    exact Classical.byContradiction fun hn => by simp [h.mpr hn] at e

end Table
end Wiring
