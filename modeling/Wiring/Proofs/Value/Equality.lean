import Mathlib.Data.List.Forall2
import Mathlib.Data.List.Perm.Subperm
import Wiring.Proofs.Value.Entries
import Wiring.Value.Equality

/-! # Equality is symmetric and transitive

What equality compares is written down for each kind of value: sequences item by item, mappings key
by key. A mapping may hold more keys than another one that has an equal entry for each of its own;
that they have the same number of keys makes up for it.
-/
namespace Wiring

namespace Binary64
set_option autoImplicit false

theorem beq_trans {x y z : Binary64} (h : (x == y) = true) (hNext : (y == z) = true) :
    (x == z) = true := by
  change beq x y = true at h
  change beq y z = true at hNext
  change beq x z = true
  simp only [beq, Bool.and_eq_true, Bool.or_eq_true, beq_iff_eq] at h hNext ⊢
  obtain ⟨⟨hNumber, _⟩, hSame⟩ := h
  obtain ⟨⟨_, hLast⟩, hNextSame⟩ := hNext
  refine ⟨⟨hNumber, hLast⟩, ?_⟩
  rcases hSame with hBits | ⟨hZero, hZeroNext⟩
  · obtain ⟨bits⟩ := x
    obtain ⟨other⟩ := y
    cases hBits
    exact hNextSame
  · obtain ⟨other⟩ := y
    obtain ⟨last⟩ := z
    rcases hNextSame with hBits | ⟨_, hZeroLast⟩
    · cases hBits
      exact .inr ⟨hZero, hZeroNext⟩
    · exact .inr ⟨hZero, hZeroLast⟩

end Binary64

namespace Value
set_option autoImplicit false

def isWord : Value → Bool
  | null => true
  | bool _ => true
  | integer _ => true
  | string _ => true
  | bytes _ => true
  | _ => false

/-- The ways in which two values are equal. -/
inductive Equal : Value → Value → Prop
  | word {value : Value} : value.isWord = true → Equal value value
  | float {x y : Binary64} : (x == y) = true → Equal (.float x) (.float y)
  | sequence {xs ys : List Value} : List.Forall₂ (fun x y => beq x y = true) xs ys →
    Equal (.sequence xs) (.sequence ys)
  | mapping {xs ys : List (String × Value)} : xs.length = ys.length →
    (∀ key x, (key, x) ∈ xs → ∃ y, Entries.get? key ys = some y ∧ beq x y = true) →
    Equal (.mapping xs) (.mapping ys)
  | object (identity : Nat) {xs ys : List (String × Value)} {text other : Option String}
    {x y : Value} : Equal (.object identity xs text x) (.object identity ys other y)
  | thunk (identity : Nat) {x y : Value} : Equal (.thunk identity x) (.thunk identity y)

theorem bytes_beq_iff {x y : ByteArray} : (x == y) = true ↔ x = y := by
  obtain ⟨xs⟩ := x
  obtain ⟨ys⟩ := y
  rw [ByteArray.mk.injEq, ← beq_iff_eq (a := xs)]
  rfl

theorem itemsBeq_iff {xs ys : List Value} :
    itemsBeq xs ys = true ↔ List.Forall₂ (fun x y => beq x y = true) xs ys := by
  induction xs generalizing ys with
  | nil => cases ys <;> simp [itemsBeq]
  | cons x xs ih => cases ys <;> simp [itemsBeq, ih]

theorem entriesBeq_iff {xs ys : List (String × Value)} :
    entriesBeq xs ys = true ↔
      ∀ key x, (key, x) ∈ xs → ∃ y, Entries.get? key ys = some y ∧ beq x y = true := by
  induction xs with
  | nil => simp [entriesBeq]
  | cons entry xs ih =>
    obtain ⟨name, value⟩ := entry
    rw [entriesBeq, Bool.and_eq_true, ih]
    constructor
    · rintro ⟨hHere, hRest⟩ key x hMem
      rcases List.mem_cons.mp hMem with hFirst | hMem
      · cases hFirst
        split at hHere
        · rename_i y hFound
          exact ⟨y, hFound, hHere⟩
        · cases hHere
      · exact hRest key x hMem
    · intro h
      obtain ⟨y, hFound, hSame⟩ := h name value List.mem_cons_self
      refine ⟨?_, fun key x hMem => h key x (List.mem_cons_of_mem _ hMem)⟩
      rw [hFound]
      exact hSame

theorem beq_iff {x y : Value} : beq x y = true ↔ Equal x y := by
  constructor
  · intro h
    cases x with
    | null => cases y with
      | null => exact .word rfl
      | _ => cases h
    | bool b => cases y with
      | bool c =>
        cases eq_of_beq h
        exact .word rfl
      | _ => cases h
    | integer n => cases y with
      | integer m =>
        cases eq_of_beq h
        exact .word rfl
      | _ => cases h
    | string s => cases y with
      | string t =>
        cases eq_of_beq h
        exact .word rfl
      | _ => cases h
    | bytes b => cases y with
      | bytes c =>
        cases bytes_beq_iff.mp h
        exact .word rfl
      | _ => cases h
    | float a => cases y with
      | float b => exact .float h
      | _ => cases h
    | sequence xs => cases y with
      | sequence ys => exact .sequence (itemsBeq_iff.mp h)
      | _ => cases h
    | mapping xs => cases y with
      | mapping ys =>
        obtain ⟨hLength, hEntries⟩ := Bool.and_eq_true_iff.mp h
        exact .mapping (eq_of_beq hLength) (entriesBeq_iff.mp hEntries)
      | _ => cases h
    | object identity xs text form => cases y with
      | object other ys text form =>
        cases eq_of_beq h
        exact .object identity
      | _ => cases h
    | thunk identity result => cases y with
      | thunk other result =>
        cases eq_of_beq h
        exact .thunk identity
      | _ => cases h
  · rintro (hWord | hFloat | hItems | ⟨hLength, hEntries⟩ | _ | _)
    · cases x with
      | null => rfl
      | bool b => exact beq_self_eq_true b
      | integer n => exact beq_self_eq_true n
      | string s => exact beq_self_eq_true s
      | bytes b => exact bytes_beq_iff.mpr rfl
      | _ => cases hWord
    · exact hFloat
    · exact itemsBeq_iff.mpr hItems
    · exact Bool.and_eq_true_iff.mpr ⟨beq_iff_eq.mpr hLength, entriesBeq_iff.mpr hEntries⟩
    · exact beq_self_eq_true _
    · exact beq_self_eq_true _

theorem forall₂_beq_trans {xs ys zs : List Value}
    (ih : ∀ x ∈ xs, ∀ y z, beq x y = true → beq y z = true → beq x z = true)
    (h : List.Forall₂ (fun x y => beq x y = true) xs ys)
    (hNext : List.Forall₂ (fun x y => beq x y = true) ys zs) :
    List.Forall₂ (fun x y => beq x y = true) xs zs := by
  induction h generalizing zs with
  | nil =>
    cases hNext
    exact .nil
  | cons hHere _ ihRest =>
    cases hNext with
    | cons hThere hNextRest =>
      obtain ⟨hFirst, hRest⟩ := List.forall_mem_cons.mp ih
      exact .cons (hFirst _ _ hHere hThere) (ihRest hRest hNextRest)

theorem forall₂_beq_symm {xs ys : List Value}
    (ih : ∀ x ∈ xs, ∀ y ∈ ys, beq x y = true → beq y x = true)
    (h : List.Forall₂ (fun x y => beq x y = true) xs ys) :
    List.Forall₂ (fun x y => beq x y = true) ys xs := by
  induction h with
  | nil => exact .nil
  | cons hHere _ ihRest =>
    refine .cons (ih _ List.mem_cons_self _ List.mem_cons_self hHere) (ihRest fun x hX y hY => ?_)
    exact ih x (List.mem_cons_of_mem _ hX) y (List.mem_cons_of_mem _ hY)

theorem beq_trans {x y z : Value} (h : beq x y = true) (hNext : beq y z = true) :
    beq x z = true := by
  induction x using induction_on_containers generalizing y z with
  | sequence xs ih =>
    obtain ⟨⟨⟩⟩ | _ | hItems := beq_iff.mp h
    obtain ⟨⟨⟩⟩ | _ | hNextItems := beq_iff.mp hNext
    exact beq_iff.mpr (.sequence (forall₂_beq_trans (fun x hX y z => ih x hX) hItems hNextItems))
  | mapping xs ih =>
    obtain ⟨⟨⟩⟩ | _ | _ | ⟨hLength, hEntries⟩ := beq_iff.mp h
    obtain ⟨⟨⟩⟩ | _ | _ | ⟨hNextLength, hNextEntries⟩ := beq_iff.mp hNext
    refine beq_iff.mpr (.mapping (hLength.trans hNextLength) fun key x hMem => ?_)
    obtain ⟨y, hFound, hSame⟩ := hEntries key x hMem
    obtain ⟨z, hNextFound, hNextSame⟩ := hNextEntries key y (Entries.mem_of_get? hFound)
    exact ⟨z, hNextFound, ih key x hMem hSame hNextSame⟩
  | leaf x hLeaf =>
    cases beq_iff.mp h with
    | word => exact hNext
    | float hFloat =>
      obtain ⟨⟨⟩⟩ | hNextFloat := beq_iff.mp hNext
      exact beq_iff.mpr (.float (Binary64.beq_trans hFloat hNextFloat))
    | sequence => cases hLeaf
    | mapping => cases hLeaf
    | object identity =>
      cases beq_iff.mp hNext with
      | word hWord => cases hWord
      | object => exact beq_iff.mpr (.object identity)
    | thunk identity =>
      cases beq_iff.mp hNext with
      | word hWord => cases hWord
      | thunk => exact beq_iff.mpr (.thunk identity)

/-- Distinct keys that are all among as many others are all of them. -/
theorem keys_subset_of_length {xs ys : List (String × Value)} (hXs : (Entries.keys xs).Nodup)
    (hLength : xs.length = ys.length) (h : Entries.keys xs ⊆ Entries.keys ys) :
    Entries.keys ys ⊆ Entries.keys xs := by
  have hPerm : (Entries.keys xs).Perm (Entries.keys ys) := by
    refine (List.subperm_of_subset hXs h).perm_of_length_le ?_
    simp only [Entries.keys, List.length_map, hLength, Nat.le_refl]
  exact hPerm.symm.subset

theorem beq_symm {x y : Value} (hX : x.WellFormed) (hY : y.WellFormed) (h : beq x y = true) :
    beq y x = true := by
  induction x using induction_on_containers generalizing y with
  | sequence xs ih =>
    obtain ⟨⟨⟩⟩ | _ | hItems := beq_iff.mp h
    refine beq_iff.mpr (.sequence (forall₂_beq_symm (fun x hMem y hOther => ?_) hItems))
    exact ih x hMem (ItemsWellFormed.of_mem hX hMem) (ItemsWellFormed.of_mem hY hOther)
  | mapping xs ih =>
    obtain ⟨⟨⟩⟩ | _ | _ | @⟨_, ys, hLength, hEntries⟩ := beq_iff.mp h
    obtain ⟨hKeys, hValues⟩ := hX
    obtain ⟨hOtherKeys, hOtherValues⟩ := hY
    have hSubset : Entries.keys xs ⊆ Entries.keys ys := by
      intro key hKey
      obtain ⟨⟨_, x⟩, hMem, rfl⟩ := List.mem_map.mp hKey
      obtain ⟨y, hFound, _⟩ := hEntries _ x hMem
      exact Entries.mem_keys_of_mem (Entries.mem_of_get? hFound)
    refine beq_iff.mpr (.mapping hLength.symm fun key y hMem => ?_)
    have hKey := keys_subset_of_length hKeys hLength hSubset (Entries.mem_keys_of_mem hMem)
    obtain ⟨⟨_, x⟩, hHere, rfl⟩ := List.mem_map.mp hKey
    obtain ⟨other, hFound, hSame⟩ := hEntries _ x hHere
    cases (Entries.get?_of_mem hOtherKeys hMem).symm.trans hFound
    exact ⟨x, Entries.get?_of_mem hKeys hHere, ih _ x hHere (EntriesWellFormed.of_mem hValues hHere)
      (EntriesWellFormed.of_mem hOtherValues hMem) hSame⟩
  | leaf x hLeaf =>
    cases beq_iff.mp h with
    | word hWord => exact beq_iff.mpr (.word hWord)
    | float hFloat => exact beq_iff.mpr (.float (Binary64.beq_comm _ _ ▸ hFloat))
    | sequence => cases hLeaf
    | mapping => cases hLeaf
    | object identity => exact beq_iff.mpr (.object identity)
    | thunk identity => exact beq_iff.mpr (.thunk identity)

end Value
end Wiring
