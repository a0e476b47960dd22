import Wiring.Yaml.Token

/-! # Node trees

Tokens form a tree of scalars, sequences and mappings, in which aliases stand for nodes that carry
an anchor.
-/
namespace Wiring.Yaml
set_option autoImplicit false

abbrev Tag := Option String

/-- A tag without a name. A scalar that is not left out takes it for none. -/
def bareTag : String := "!"

inductive Node where
  | scalar (plain : Bool) (tag : Tag) (text : String)
  | sequence (tag : Tag) (items : List Node)
  | mapping (tag : Tag) (entries : List (Node × Node))
  | alias (number : Nat)
  deriving Inhabited

namespace Node

def empty : Node := scalar true none ""

end Node

/-- What is known of the anchors so far. An anchor gets as its number how many other names there
are; an alias means the node under that number that started last. -/
structure Anchors where
  numbers : List (String × Nat) := []
  started : Nat := 0
  starts : List (Nat × Nat) := []
  nodes : List (Nat × Node) := []
  /-- How many parts the tree has, each end of a collection being one. -/
  parts : Nat := 0

namespace Anchors

def declare (anchors : Anchors) (name : String) : Anchors :=
  let number := anchors.numbers.length
  { anchors with
    numbers := Entries.set name number anchors.numbers
    started := anchors.started + 1
    starts := (number, anchors.started) :: anchors.starts }

def node? (anchors : Anchors) (number : Nat) : Option Node := do
  let start ← anchors.starts.lookup number
  anchors.nodes.lookup start

end Anchors

structure NodeReader where
  tokens : List Token
  handles : List (String × String) := standardHandles
  anchors : Anchors := {}

abbrev Read := StateT NodeReader Option

namespace Read

def next? : Read (Option Token) := do return (← get).tokens.head?

def drop : Read Unit := modify fun s => { s with tokens := s.tokens.tail }

def dropIf (token : Token) : Read Bool := do
  if (← next?) == some token then
    drop
    return true
  else return false

def countParts (n : Nat) : Read Unit :=
  modify fun s => { s with anchors := { s.anchors with parts := s.anchors.parts + n } }

/-- The full name of a tag. One without a handle is full as it is. -/
def fullName (handle name : String) : Read String := do
  if handle.isEmpty then return name
  let lead ← (← get).handles.lookup handle
  return lead ++ name

def properties : Read (Option String × Tag) := do
  let anchor? : Read (Option String) := do
    match ← next? with
    | some (.anchor name) => drop; return some name
    | _ => return none
  let tag? : Read Tag := do
    match ← next? with
    | some (.tag handle name) => drop; return some (← fullName handle name)
    | _ => return none
  match ← anchor? with
  | some name => return (some name, ← tag?)
  | none =>
    let tag ← tag?
    if tag.isSome then return (← anchor?, tag) else return (none, none)

def start : Option String → Read (Option Nat)
  | none => return none
  | some name => do
    let s ← get
    set { s with anchors := s.anchors.declare name }
    return some s.anchors.started

def finish (start : Option Nat) (node : Node) : Read Node := do
  if let some start := start then
    modify fun s =>
      { s with anchors := { s.anchors with nodes := (start, node) :: s.anchors.nodes } }
  return node

def leftOut (stops : List Token) : Read Bool := do
  return (← next?).any stops.contains

def emptyNode : Read Node := do
  countParts 1
  return .empty

def separated (first : Bool) : Read Unit := do
  unless first do
    unless ← dropIf .flowEntry do failure

mutual

/-- A node. Block collections are read where `block` says so, and a sequence that is indented like
the mapping around it where `unindented` does. -/
def node (fuel : Nat) (block unindented : Bool) : Read Node :=
  match fuel with
  | 0 => failure
  | fuel + 1 => do
    if let some (.alias name) ← next? then
      drop
      countParts 1
      return .alias (← Entries.get? name (← get).anchors.numbers)
    let (anchor, tag) ← properties
    let started ← start anchor
    match ← next? with
    | some (.scalar plain text) =>
      drop
      countParts 1
      finish started (.scalar plain (tag.filter (· != bareTag)) text)
    | some .flowSequence =>
      drop
      countParts 2
      finish started (.sequence tag (← flowItems fuel true))
    | some .flowMapping =>
      drop
      countParts 2
      finish started (.mapping tag (← flowEntries fuel true))
    | token =>
      if unindented && token == some .blockEntry then
        countParts 2
        finish started (.sequence tag (← unindentedItems fuel))
      else if block && token == some .blockSequence then
        drop
        countParts 2
        finish started (.sequence tag (← blockItems fuel))
      else if block && token == some .blockMapping then
        drop
        countParts 2
        finish started (.mapping tag (← blockEntries fuel))
      else if anchor.isSome || tag.isSome then
        countParts 1
        finish started (.scalar true tag "")
      else failure

def blockItems (fuel : Nat) : Read (List Node) :=
  match fuel with
  | 0 => failure
  | fuel + 1 => do
    if ← dropIf .blockEntry then
      let item ← if ← leftOut [.blockEntry, .blockEnd] then emptyNode else node fuel true false
      return item :: (← blockItems fuel)
    else if ← dropIf .blockEnd then return []
    else failure

def unindentedItems (fuel : Nat) : Read (List Node) :=
  match fuel with
  | 0 => failure
  | fuel + 1 => do
    if ← dropIf .blockEntry then
      let item ← if ← leftOut [.blockEntry, .key, .value, .blockEnd] then emptyNode
        else node fuel true false
      return item :: (← unindentedItems fuel)
    else return []

def blockEntries (fuel : Nat) : Read (List (Node × Node)) :=
  match fuel with
  | 0 => failure
  | fuel + 1 => do
    let stops : List Token := [.key, .value, .blockEnd]
    if ← dropIf .key then
      let key ← if ← leftOut stops then emptyNode else node fuel true true
      let value ← if ← dropIf .value then
          if ← leftOut stops then emptyNode else node fuel true true
        else emptyNode
      return (key, value) :: (← blockEntries fuel)
    else if ← dropIf .blockEnd then return []
    else failure

def flowItems (fuel : Nat) (first : Bool) : Read (List Node) :=
  match fuel with
  | 0 => failure
  | fuel + 1 => do
    if ← dropIf .flowSequenceEnd then return []
    separated first
    if ← dropIf .key then
      let pair ← flowPair fuel
      countParts 2
      return .mapping none [pair] :: (← flowItems fuel false)
    else if ← dropIf .flowSequenceEnd then return []
    else
      let item ← node fuel false false
      return item :: (← flowItems fuel false)

/-- A lone entry in a flow sequence. Where its key is left out the next token is, too. -/
def flowPair (fuel : Nat) : Read (Node × Node) :=
  match fuel with
  | 0 => failure
  | fuel + 1 => do
    let key ← if ← leftOut [.value, .flowEntry, .flowSequenceEnd] then
        drop
        emptyNode
      else node fuel false false
    let value ← if ← dropIf .value then
        if ← leftOut [.flowEntry, .flowSequenceEnd] then emptyNode else node fuel false false
      else emptyNode
    return (key, value)

def flowEntries (fuel : Nat) (first : Bool) : Read (List (Node × Node)) :=
  match fuel with
  | 0 => failure
  | fuel + 1 => do
    if ← dropIf .flowMappingEnd then return []
    separated first
    if ← dropIf .key then
      let stops : List Token := [.flowEntry, .flowMappingEnd]
      let key ← if ← leftOut (.value :: stops) then emptyNode else node fuel false false
      let value ← if ← dropIf .value then
          if ← leftOut stops then emptyNode else node fuel false false
        else emptyNode
      return (key, value) :: (← flowEntries fuel false)
    else if ← dropIf .flowMappingEnd then return []
    else
      let key ← node fuel false false
      let value ← emptyNode
      return (key, value) :: (← flowEntries fuel false)

end

/-- Reads the directives before a document, of which no two say the same thing. -/
def directives : Read (List Directive) := do
  let s ← get
  let directive? : Token → Option Directive
    | .directive directive => some directive
    | _ => none
  let (front, rest) := s.tokens.span fun token => (directive? token).isSome
  let found := front.filterMap directive?
  let handles : List (String × String) := found.filterMap fun
    | .handle handle lead => some (handle, lead)
    | .version => none
  if 1 < found.count .version || !decide (handles.map Prod.fst).Nodup then failure
  set { s with tokens := rest, handles := handles ++ s.handles }
  return found

/-- The root of the one document, unless there is none. A document with directives starts with a
mark. -/
def document (fuel : Nat) : Read (Option Node) := do
  let found ← directives
  let begun ← dropIf .documentStart
  if !found.isEmpty && !begun then failure
  match ← next? with
  | none => if begun then return some (← emptyNode) else return none
  | some token =>
    let root ← if begun && (token == .documentStart || token == .documentEnd) then emptyNode
      else node fuel true false
    modify fun s => { s with tokens := s.tokens.dropWhile (· == .documentEnd) }
    if (← next?).isNone then return some root else failure

end Read
end Wiring.Yaml
