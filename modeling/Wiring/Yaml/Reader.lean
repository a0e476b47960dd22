import Wiring.Yaml.Node
import Wiring.Yaml.Plain

/-! # Reading YAML

A text holds one document. As in JSON, the entries of a mapping come out in ascending order of
their keys, and of a repeated key the last value counts.
-/
namespace Wiring.Yaml
set_option autoImplicit false

def maxDepth : Nat := 128

/-- How many aliases are followed at most for each part of a document. -/
def maxAliases : Nat := 100

/-- A local tag names a kind of value that there is not. -/
def isLocal (tag : Tag) : Bool := tag.any fun name => name.startsWith "!"

/-- The value of a scalar. A standard tag asks for its kind; without one, what is not plain is
text. -/
def scalarValue? (plain : Bool) (tag : Tag) (text : String) : Option Value :=
  match tag with
  | none => if plain then Plain.value? text else some (.string text)
  | some name =>
    if name = standardTag ++ "bool" then (Plain.bool? text).map .bool
    else if name = standardTag ++ "int" then
      match Plain.integer text with
      | .value value => some value
      | _ => none
    else if name = standardTag ++ "float" then
      if Plain.isNotFinite text then some .null else (Plain.float? text.toList).map .float
    else if name = standardTag ++ "null" then
      if !text.isEmpty && Plain.isNull text then some .null else none
    else if isLocal tag then none
    else some (.string text)

def followed? (anchors : Anchors) : Node → StateT Nat Option Node
  | .alias number => do
    match ← get with
    | 0 => failure
    | left + 1 =>
      set left
      anchors.node? number
  | node => return node

def keyText? (anchors : Anchors) (node : Node) : StateT Nat Option String := do
  match ← followed? anchors node with
  | .scalar _ _ text => return text
  | _ => failure

def Node.value? (anchors : Anchors) : (depth : Nat) → Node → StateT Nat Option Value
  | depth, node => do
    match ← followed? anchors node, depth with
    | .scalar plain tag text, _ => scalarValue? plain tag text
    | .sequence tag items, depth + 1 =>
      if isLocal tag then failure
      return .sequence (← items.mapM (value? anchors depth))
    | .mapping tag entries, depth + 1 =>
      if isLocal tag then failure
      let pairs ← entries.mapM fun (key, value) => do
        let key ← keyText? anchors key
        return (key, ← value? anchors depth value)
      return Json.mappingOf pairs
    | _, _ => failure

/-- Reads the one value that a text holds; an empty text holds null. -/
def read? (text : String) : Option Value := do
  let tokens ← tokens? text
  let (root, reader) ← (Read.document (4 * tokens.length + 8)).run { tokens }
  match root with
  | none => return .null
  | some root =>
    let (value, _) ← (root.value? reader.anchors maxDepth).run (maxAliases * reader.anchors.parts)
    return value

end Wiring.Yaml
