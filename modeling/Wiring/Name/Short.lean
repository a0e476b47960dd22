import Wiring.Name.Letters

/-! # Short names

A short name is what a component is asked for by: lower-case words joined by `-`, with `:`
between namespaces and without the default namespace.
-/
namespace Wiring.Name
set_option autoImplicit false

/-- Splits words at capitals and writes them in lower case; `inWord` says that a word character
came right before. A word starts with a letter. -/
def splitWords (inWord : Bool) : List Char → Option (List Char)
  | [] => some []
  | c :: rest =>
    if isNamespaceMark c then
      (splitWords false rest).map (':' :: ·)
    else if isJoiner c then
      (splitWords false rest).map ('-' :: ·)
    else if isUpper c then
      (splitWords true rest).map fun tail =>
        if inWord then '-' :: small c :: tail else small c :: tail
    else if isLower c || (inWord && c.isDigit) then
      (splitWords true rest).map (c :: ·)
    else none

def unqualified (name : List Char) : List Char :=
  let lead := defaultNamespace.toList ++ [separator]
  if lead.isPrefixOf name then name.drop lead.length else name

/-- Drops a suffix, unless nothing else is left or it is a namespace segment of its own. -/
def withoutSuffix (suffix name : List Char) : List Char :=
  let stem := name.take (name.length - suffix.length)
  if suffix.isSuffixOf name && !stem.isEmpty && stem.getLast? != some separator then stem
  else name

def short? (name suffix : String) : Option String :=
  if name.isEmpty then none
  else (splitWords false (withoutSuffix suffix.toList (unqualified name.toList))).map String.ofList

end Wiring.Name
