import Wiring.Name.Letters

/-! # Canonical names

A canonical name is a chain of capitalized words in namespaces, such as `App\CreateAccount`.
-/
namespace Wiring.Name
set_option autoImplicit false

/-- Capitalizes each word and writes the words of a namespace without anything between them;
`fresh` says that the next word character starts a word. -/
def joinWords (fresh : Bool) : List Char → Option (List Char)
  | [] => some []
  | c :: rest =>
    if isWordChar c then
      (joinWords false rest).map ((if fresh then capital c else c) :: ·)
    else if isNamespaceMark c then
      (joinWords true rest).map (separator :: ·)
    else if isJoiner c then
      joinWords true rest
    else none

def qualified (name : List Char) : List Char :=
  if name.contains separator then name
  else defaultNamespace.toList ++ separator :: name

/-- A suffix is written at most once. -/
def withSuffix (suffix name : List Char) : List Char :=
  if suffix.isSuffixOf name then name else name ++ suffix

/-- The canonical form of a name, if it is one: words of letters and digits joined by `-` or `_`,
with `:` or `\` between namespaces. -/
def canonical? (name suffix : String) : Option String :=
  if name.isEmpty then none
  else (joinWords true name.toList).map fun text =>
    String.ofList (withSuffix suffix.toList (qualified text))

end Wiring.Name
