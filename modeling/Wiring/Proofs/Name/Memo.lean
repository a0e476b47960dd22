import Std.Data.HashMap.Lemmas
import Wiring.Name.Memo

/-! # Memoized names are the names that are built

Whatever a memo was asked before, it answers as if it were asked for the first time. Both tables
hold under a name and a suffix just what is built for these two, which every question keeps.
-/
namespace Wiring.Name
set_option autoImplicit false

inductive Query where
  | canonical (name suffix : String)
  | short (name suffix : String)

def Query.built : Query → Except Failure String
  | canonical name suffix => canonicalize name suffix
  | short name suffix => shorten name suffix

namespace Memo

def ask (memo : Memo) : Query → Except Failure String × Memo
  | .canonical name suffix => memo.canonicalize name suffix
  | .short name suffix => memo.shorten name suffix

def askAll (memo : Memo) : List Query → List (Except Failure String) × Memo
  | [] => ([], memo)
  | query :: rest =>
    let (answer, memo) := memo.ask query
    let (answers, memo) := memo.askAll rest
    (answer :: answers, memo)

/-- Each name in the table is built for its key. -/
def Holds (table : Std.HashMap (String × String) String)
    (build : String → String → Except Failure String) : Prop :=
  ∀ (key : String × String) (name : String), table[key]? = some name →
    build key.1 key.2 = .ok name

/-- Neither table holds a name that is not built for its key. -/
structure IsSound (memo : Memo) : Prop where
  canonical : Holds memo.canonical Name.canonicalize
  short : Holds memo.short Name.shorten

theorem holds_empty (build : String → String → Except Failure String) : Holds ∅ build := by
  intro key name hFound
  rw [Std.HashMap.getElem?_empty] at hFound
  cases hFound

theorem isSound_empty : ({} : Memo).IsSound :=
  ⟨holds_empty Name.canonicalize, holds_empty Name.shorten⟩

section Tables

variable {table : Std.HashMap (String × String) String}
  {build : String → String → Except Failure String}

theorem Holds.insert (h : Holds table build) {key : String × String} {name : String}
    (hName : build key.1 key.2 = .ok name) : Holds (table.insert key name) build := by
  intro other found hFound
  rw [Std.HashMap.getElem?_insert] at hFound
  split at hFound
  · rename_i hSame
    cases hFound
    rw [← eq_of_beq hSame, hName]
  · exact h other found hFound

theorem lookUp_of_holds (h : Holds table build) (key : String × String) :
    (lookUp table key (build key.1 key.2)).1 = build key.1 key.2 ∧
      Holds (lookUp table key (build key.1 key.2)).2 build := by
  cases hHit : table[key]? with
  | some hit =>
    simp only [lookUp, hHit]
    exact ⟨(h key hit hHit).symm, h⟩
  | none =>
    simp only [lookUp, hHit]
    cases hName : build key.1 key.2 with
    | ok name => exact ⟨rfl, h.insert hName⟩
    | error failure => exact ⟨rfl, h⟩

end Tables

theorem ask_of_isSound {memo : Memo} (h : memo.IsSound) (query : Query) :
    (memo.ask query).1 = query.built ∧ (memo.ask query).2.IsSound := by
  cases query with
  | canonical name suffix =>
    obtain ⟨hAnswer, hTable⟩ := lookUp_of_holds h.canonical (name, suffix)
    exact ⟨hAnswer, hTable, h.short⟩
  | short name suffix =>
    obtain ⟨hAnswer, hTable⟩ := lookUp_of_holds h.short (name, suffix)
    exact ⟨hAnswer, h.canonical, hTable⟩

theorem askAll_of_isSound {memo : Memo} (h : memo.IsSound) (queries : List Query) :
    (memo.askAll queries).1 = queries.map Query.built ∧ (memo.askAll queries).2.IsSound := by
  induction queries generalizing memo with
  | nil => exact ⟨rfl, h⟩
  | cons query rest ih =>
    obtain ⟨hAnswer, hSound⟩ := ask_of_isSound h query
    obtain ⟨hAnswers, hLast⟩ := ih hSound
    exact ⟨congr (congrArg List.cons hAnswer) hAnswers, hLast⟩

/-- From an empty memo, all questions are answered by what is built for them, failures included. -/
theorem askAll_empty (queries : List Query) :
    (({} : Memo).askAll queries).1 = queries.map Query.built :=
  (askAll_of_isSound isSound_empty queries).1

end Memo
end Wiring.Name
