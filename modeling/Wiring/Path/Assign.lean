import Wiring.Path.Basic

/-! # Assignment along paths

Assignment creates mappings on its way and merges containers into containers. It refuses to put a
container in the place of a scalar or a scalar in the place of a container; null counts as absent.
-/
namespace Wiring
set_option autoImplicit false

inductive Path.Conflict where
  | descendThroughScalar
  | containerForScalar
  | scalarForContainer
  deriving DecidableEq

/-- The value that an assignment leaves, and the conflict that stopped it, if one did. What was
assigned before the conflict stays. -/
structure Assigned where
  value : Value
  conflict : Option Path.Conflict
  deriving Inhabited

namespace Value

def indexed (items : List Value) : List (String × Value) :=
  items.zipIdx.map fun (item, position) => (Position.text position, item)

/-- What a slot of a container holds; a slot that is not there yet holds null. -/
def held (node : Value) (key : String) : Value := (node.child? key).getD null

/-- Writes a slot of a container. A sequence takes the positions it has and the next one; any
other key makes it a mapping keyed by position. -/
def put (node : Value) (key : String) (value : Value) : Value :=
  match node with
  | mapping entries => mapping (Entries.set key value entries)
  | sequence items =>
    match Position.ofText? key with
    | some position =>
      if position < items.length then sequence (items.set position value)
      else if position = items.length then sequence (items ++ [value])
      else mapping (Entries.set key value (indexed items))
    | none => mapping (Entries.set key value (indexed items))
  | other => other

mutual

def assign (old : Value) : Value → Assigned
  | mapping entries =>
    if old.isNull then ⟨mapping entries, none⟩
    else if old.isContainer then mergeEntries old entries
    else ⟨old, some .containerForScalar⟩
  | sequence items =>
    if old.isNull then ⟨sequence items, none⟩
    else if old.isContainer then mergeItems old 0 items
    else ⟨old, some .containerForScalar⟩
  | new => if old.isContainer then ⟨old, some .scalarForContainer⟩ else ⟨new, none⟩

def mergeEntries (node : Value) : List (String × Value) → Assigned
  | [] => ⟨node, none⟩
  | (key, new) :: rest =>
    let slot := assign (node.held key) new
    let node := node.put key slot.value
    match slot.conflict with
    | some conflict => ⟨node, some conflict⟩
    | none => mergeEntries node rest

def mergeItems (node : Value) (position : Nat) : List Value → Assigned
  | [] => ⟨node, none⟩
  | new :: rest =>
    let key := Position.text position
    let slot := assign (node.held key) new
    let node := node.put key slot.value
    match slot.conflict with
    | some conflict => ⟨node, some conflict⟩
    | none => mergeItems node (position + 1) rest

end

/-- What an assignment descends into: null becomes an empty mapping. -/
def opened (node : Value) : Value := if node.isNull then mapping [] else node

/-- Assigns a value at keys. -/
def assignAt (node : Value) (keys : List String) (new : Value) : Assigned :=
  match keys with
  | [] => assign node new
  | key :: rest =>
    let node := node.opened
    if node.isContainer then
      let slot := assignAt (node.held key) rest new
      ⟨node.put key slot.value, slot.conflict⟩
    else ⟨node, some .descendThroughScalar⟩

theorem opened_of_isContainer {node : Value} (h : node.isContainer = true) :
    node.opened = node := by
  cases node <;> simp_all [opened, isContainer, isNull]

theorem assign_null (new : Value) : assign null new = ⟨new, none⟩ := by
  cases new <;> simp [assign, isNull, isContainer]

end Value
end Wiring
