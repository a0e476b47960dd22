import Wiring.Value.Basic

/-! # Equality of values

Values of different kinds differ. Mappings are equal in any order of their entries; objects and
thunks are equal to themselves only.
-/
namespace Wiring.Value
set_option autoImplicit false

mutual

def beq : Value → Value → Bool
  | null, null => true
  | bool x, bool y => x == y
  | integer x, integer y => x == y
  | float x, float y => x == y
  | string x, string y => x == y
  | bytes x, bytes y => x == y
  | sequence xs, sequence ys => itemsBeq xs ys
  | mapping xs, mapping ys => xs.length == ys.length && entriesBeq xs ys
  | object x _ _ _, object y _ _ _ => x == y
  | thunk x _, thunk y _ => x == y
  | _, _ => false

def itemsBeq : List Value → List Value → Bool
  | [], [] => true
  | x :: xs, y :: ys => beq x y && itemsBeq xs ys
  | _, _ => false

/-- Each entry of the first list has its equal in the second. -/
def entriesBeq : List (String × Value) → List (String × Value) → Bool
  | [], _ => true
  | (key, x) :: xs, ys =>
    (match Entries.get? key ys with
      | some y => beq x y
      | none => false) && entriesBeq xs ys

end

instance : BEq Value := ⟨beq⟩

end Wiring.Value
