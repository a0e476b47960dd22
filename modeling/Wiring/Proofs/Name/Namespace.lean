import Wiring.Name

/-! # Names within a namespace

Canonical names stand within a namespace and short names in none, so that no name is of both forms.
-/
namespace Wiring.Name
set_option autoImplicit false

def HasNamespace (name : String) : Prop := separator ∈ name.toList

instance (name : String) : Decidable (HasNamespace name) :=
  inferInstanceAs (Decidable (separator ∈ name.toList))

theorem separator_mem_qualified (name : List Char) : separator ∈ qualified name := by
  rw [qualified]
  split
  · rename_i hMem
    exact List.contains_iff_mem.mp hMem
  · exact List.mem_append_right _ List.mem_cons_self

theorem mem_withSuffix {c : Char} {name : List Char} (h : c ∈ name) (suffix : List Char) :
    c ∈ withSuffix suffix name := by
  rw [withSuffix]
  split
  · exact h
  · exact List.mem_append_left _ h

theorem hasNamespace_of_canonicalize {name suffix long : String}
    (h : canonicalize name suffix = .ok long) : HasNamespace long := by
  have hSome : canonical? name suffix = some long := (canonicalize_eq_ok_iff _ _ _).mp h
  rw [canonical?] at hSome
  split at hSome
  · cases hSome
  · obtain ⟨text, _, rfl⟩ := Option.map_eq_some_iff.mp hSome
    rw [HasNamespace, String.toList_ofList]
    exact mem_withSuffix (separator_mem_qualified text) _

theorem ne_separator_of_isLower {c : Char} (h : isLower c = true) : c ≠ separator := by
  rintro rfl
  exact absurd h (by decide)

theorem ne_separator_of_isDigit {c : Char} (h : c.isDigit = true) : c ≠ separator := by
  rintro rfl
  exact absurd h (by decide)

theorem toLower_ne_separator {c : Char} (h : c.isUpper = true) : c.toLower ≠ separator := by
  have hUpper : 'A'.val ≤ c.val ∧ c.val ≤ 'Z'.val := of_decide_eq_true h
  have hLow : 65 ≤ c.val.toNat := UInt32.le_iff_toNat_le.mp hUpper.1
  have hHigh : c.val.toNat ≤ 90 := UInt32.le_iff_toNat_le.mp hUpper.2
  intro hSame
  have hLowered : c.toLower.val = c.val + 32 := congrArg Char.val (dif_pos hUpper)
  have hVal : (c.val + 32).toNat = 92 := by
    rw [← hLowered, hSame]
    rfl
  rw [UInt32.toNat_add] at hVal
  have hSum : (c.val.toNat + 32) % 2 ^ 32 = 92 := hVal
  omega

theorem small_ne_separator {c : Char} (h : isUpper c = true) : small c ≠ separator := by
  rw [small]
  split
  · decide
  split
  · decide
  split
  · decide
  have hUpper : c.isUpper = true := by simp_all [isUpper]
  exact toLower_ne_separator hUpper

/-- Only the marks between namespaces and the joiners are written anew, as `:` and `-`. -/
theorem separator_not_mem_of_splitWords {inWord : Bool} {name short : List Char}
    (h : splitWords inWord name = some short) : separator ∉ short := by
  fun_induction splitWords inWord name generalizing short with
  | case1 =>
    cases h
    exact List.not_mem_nil
  | case2 inWord c rest hMark ih =>
    obtain ⟨tail, hTail, rfl⟩ := Option.map_eq_some_iff.mp h
    exact List.not_mem_cons_of_ne_of_not_mem (by decide) (ih hTail)
  | case3 inWord c rest hMark hJoiner ih =>
    obtain ⟨tail, hTail, rfl⟩ := Option.map_eq_some_iff.mp h
    exact List.not_mem_cons_of_ne_of_not_mem (by decide) (ih hTail)
  | case4 inWord c rest hMark hJoiner hUpper ih =>
    obtain ⟨tail, hTail, rfl⟩ := Option.map_eq_some_iff.mp h
    have hSmall : separator ∉ small c :: tail :=
      List.not_mem_cons_of_ne_of_not_mem (small_ne_separator hUpper).symm (ih hTail)
    split
    · exact List.not_mem_cons_of_ne_of_not_mem (by decide) hSmall
    · exact hSmall
  | case5 inWord c rest hMark hJoiner hUpper hTailChar ih =>
    obtain ⟨tail, hTail, rfl⟩ := Option.map_eq_some_iff.mp h
    refine List.not_mem_cons_of_ne_of_not_mem ?_ (ih hTail)
    rcases Bool.or_eq_true_iff.mp hTailChar with hLower | hDigit
    · exact (ne_separator_of_isLower hLower).symm
    · exact (ne_separator_of_isDigit (Bool.and_eq_true_iff.mp hDigit).2).symm
  | case6 => cases h

theorem not_hasNamespace_of_shorten {name suffix short : String}
    (h : shorten name suffix = .ok short) : ¬ HasNamespace short := by
  have hSome : short? name suffix = some short := (shorten_eq_ok_iff _ _ _).mp h
  rw [short?] at hSome
  split at hSome
  · cases hSome
  · obtain ⟨text, hText, rfl⟩ := Option.map_eq_some_iff.mp hSome
    rw [HasNamespace, String.toList_ofList]
    exact separator_not_mem_of_splitWords hText

end Wiring.Name
