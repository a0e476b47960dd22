import Wiring.Path.Basic
import Wiring.Proofs.Path.Grammar

/-! # Paths one after the other

Two path texts with a dot between them lead where the second one leads from where the first one
leads, through containers and objects alike (`get?_dot`).
-/
namespace Wiring
set_option autoImplicit false

namespace Path

variable {first second : String} {keys more : List String}

theorem exists_chain_of_tokenize (hSome : first ≠ "") (h : tokenize first = .ok keys) :
    ∃ chain, chain ≠ [] ∧ Spelled chain first.toList ∧ keys = chain.filterMap Item.key? := by
  obtain ⟨chain, hChain, hKeys⟩ := tokenize_eq_ok_iff.mp h
  refine ⟨chain, ?_, hChain, hKeys⟩
  rintro rfl
  generalize hText : first.toList = text at hChain
  cases hChain
  exact hSome (String.toList_eq_nil_iff.mp hText)

theorem tokenize_dot (hFirst : first ≠ "") (hSecond : second ≠ "")
    (hKeys : tokenize first = .ok keys) (hMore : tokenize second = .ok more) :
    tokenize (first ++ "." ++ second) = .ok (keys ++ more) := by
  obtain ⟨chain, hSome, hChain, rfl⟩ := exists_chain_of_tokenize hFirst hKeys
  obtain ⟨others, hOthers, hOtherChain, rfl⟩ := exists_chain_of_tokenize hSecond hMore
  have hText : (first ++ "." ++ second).toList = first.toList ++ '.' :: second.toList := by
    rw [String.toList_append, String.toList_append, List.append_assoc]
    rfl
  have hWhole := hChain.append hSome (linked_dot_iff.mpr ⟨hOthers, hOtherChain⟩)
  rw [← hText] at hWhole
  rw [tokenize_of_spelled hWhole, List.filterMap_append]

end Path

namespace Value

theorem get?_text {text : String} {keys : List String} (h : Path.tokenize text = .ok keys)
    (value : Value) : value.get? (.text text) = .ok (value.at? keys) :=
  get?_of_keys? (by rw [Path.keys?, h]; rfl) value

/-- Where the first path leads nowhere the whole one does not either. -/
theorem get?_dot {first second : String} {keys more : List String} (hFirst : first ≠ "")
    (hSecond : second ≠ "") (hKeys : Path.tokenize first = .ok keys)
    (hMore : Path.tokenize second = .ok more) (value : Value) :
    Path.tokenize (first ++ "." ++ second) = .ok (keys ++ more) ∧
      ∃ reached, value.get? (.text first) = .ok reached ∧
        value.get? (.text (first ++ "." ++ second)) =
          reached.elim (.ok none) (·.get? (.text second)) := by
  have hWhole := Path.tokenize_dot hFirst hSecond hKeys hMore
  refine ⟨hWhole, value.at? keys, get?_text hKeys value, ?_⟩
  rw [get?_text hWhole, at?_append]
  cases value.at? keys with
  | none => rfl
  | some found => exact (get?_text hMore found).symm

theorem get?_dot_property :
    let value := mapping [("a", object 0 [("b", sequence [mapping [("c", bool true)]])] none null)]
    Path.tokenize "a.b" = .ok ["a", "b"] ∧ Path.tokenize "[0].c" = .ok ["0", "c"] ∧
      Path.tokenize ("a.b" ++ "." ++ "[0].c") = .ok ["a", "b", "0", "c"] ∧
      value.get? (.text ("a.b" ++ "." ++ "[0].c")) = .ok (some (bool true)) := by
  intro value
  have hFirst : Path.tokenize "a.b" = .ok ["a", "b"] := by cbv
  have hSecond : Path.tokenize "[0].c" = .ok ["0", "c"] := by cbv
  obtain ⟨hWhole, reached, hReached, hRead⟩ := get?_dot (by decide) (by decide) hFirst hSecond value
  rw [get?_text hFirst] at hReached
  cases hReached
  refine ⟨hFirst, hSecond, hWhole, hRead.trans ?_⟩
  exact get?_text hSecond _

end Value
end Wiring
