import Wiring.Yaml.Tag

/-! # Tokens of YAML text

Indentation becomes tokens that open and close block collections. A key on one line is known only
at its colon, so that its tokens are inserted before it then.
-/
namespace Wiring.Yaml
set_option autoImplicit false

inductive Token where
  | directive (directive : Directive)
  | documentStart
  | documentEnd
  | blockSequence
  | blockMapping
  | blockEnd
  | flowSequence
  | flowSequenceEnd
  | flowMapping
  | flowMappingEnd
  | blockEntry
  | flowEntry
  | key
  | value
  | anchor (name : String)
  | alias (name : String)
  | tag (handle name : String)
  | scalar (plain : Bool) (text : String)
  deriving DecidableEq, Inhabited

/-- Where a key on one line may have started. A required one must turn out to be a key. -/
structure PossibleKey where
  required : Bool
  place : Nat
  start : Cursor

/-- The text read so far. `keys` has a possible key for each flow collection around the cursor,
innermost first, and one for the block context. -/
structure Scanner where
  cursor : Cursor
  tokens : Array Token := #[]
  indent : Int := -1
  indents : List Int := []
  keys : List (Option PossibleKey) := [none]
  keyAllowed : Bool := true

namespace Scanner

def inFlow (s : Scanner) : Bool := 1 < s.keys.length

def emit (s : Scanner) (token : Token) : Scanner := { s with tokens := s.tokens.push token }

def insert (s : Scanner) (place : Nat) (token : Token) : Scanner :=
  { s with tokens := s.tokens.insertIdxIfInBounds place token }

def skip (s : Scanner) (count : Nat) : Scanner := { s with cursor := s.cursor.skip count }

def dropKey? (s : Scanner) : Option Scanner :=
  match s.keys with
  | some possible :: outer =>
    if possible.required then none else some { s with keys := none :: outer }
  | _ => some s

def saveKey? (s : Scanner) : Option Scanner := do
  if !s.keyAllowed then return s
  let required := !s.inFlow && s.indent == s.cursor.column
  let s ← s.dropKey?
  return { s with keys := some ⟨required, s.tokens.size, s.cursor⟩ :: s.keys.tail }

def maxKey : Nat := 1024

/-- Gives up the keys that have grown over the end of their line or over the longest one. -/
def dropStale? (s : Scanner) : Option Scanner := do
  let keys ← s.keys.mapM fun
    | none => some none
    | some possible =>
      if possible.start.line < s.cursor.line ∨ possible.start.index + maxKey < s.cursor.index then
        if possible.required then none else some none
      else some (some possible)
  return { s with keys }

def openBlock (s : Scanner) (column : Nat) (place : Nat) (token : Token) : Scanner :=
  if !s.inFlow && s.indent < column then
    { s.insert place token with indents := s.indent :: s.indents, indent := column }
  else s

def closeDeeper (column : Int) (indents : List Int) (s : Scanner) : Scanner :=
  match indents with
  | [] => s
  | outer :: rest =>
    if column < s.indent then
      closeDeeper column rest { s.emit .blockEnd with indent := outer, indents := rest }
    else s

def closeBlocks (s : Scanner) (column : Int) : Scanner :=
  if s.inFlow then s else closeDeeper column s.indents s

/-- Skips blanks, comments and breaks, and a byte order mark where a line starts. A tab may not
stand where a key may start. -/
def skipSpace (s : Scanner) : (fuel : Nat) → Scanner
  | 0 => s
  | fuel + 1 =>
    let marked := s.cursor.column == 0 && s.cursor.test 0 (· == '\ufeff')
    let next := if marked then s.cursor.skip 1 else s.cursor
    let next := next.skipWhile fun c => c == ' ' || ((s.inFlow || !s.keyAllowed) && c == '\t')
    let next := if next.test 0 (· == '#') then next.skipWhile fun c => !isBreak c else next
    if next.test 0 isBreak then
      skipSpace { s with cursor := next.takeBreak.2, keyAllowed := s.keyAllowed || !s.inFlow } fuel
    else { s with cursor := next }

def documentMark? (s : Scanner) (token : Token) : Option Scanner := do
  let s ← (s.closeBlocks (-1)).dropKey?
  return { (s.emit token).skip 3 with keyAllowed := false }

def documentDirective? (s : Scanner) : Option Scanner := do
  let s ← (s.closeBlocks (-1)).dropKey?
  let (directive, next) ← directive? s.cursor
  return { s.emit (.directive directive) with cursor := next, keyAllowed := false }

def openFlow? (s : Scanner) (token : Token) : Option Scanner := do
  let s ← s.saveKey?
  return { (s.emit token).skip 1 with keys := none :: s.keys, keyAllowed := true }

def closeFlow? (s : Scanner) (token : Token) : Option Scanner := do
  let s ← s.dropKey?
  let keys := match s.keys with
    | _ :: outer :: rest => outer :: rest
    | keys => keys
  return { (s.emit token).skip 1 with keys, keyAllowed := false }

def flowEntry? (s : Scanner) : Option Scanner := do
  let s ← s.dropKey?
  return { (s.emit .flowEntry).skip 1 with keyAllowed := true }

def blockEntry? (s : Scanner) : Option Scanner := do
  if !s.inFlow && !s.keyAllowed then none
  let s ← (s.openBlock s.cursor.column s.tokens.size .blockSequence).dropKey?
  return { (s.emit .blockEntry).skip 1 with keyAllowed := true }

def key? (s : Scanner) : Option Scanner := do
  if !s.inFlow && !s.keyAllowed then none
  let s ← (s.openBlock s.cursor.column s.tokens.size .blockMapping).dropKey?
  return { (s.emit .key).skip 1 with keyAllowed := !s.inFlow }

/-- A colon makes a key of what may be one, or else gives a value to an empty key. -/
def value? (s : Scanner) : Option Scanner := do
  let s ← match s.keys with
    | some possible :: outer =>
      let s := s.insert possible.place .key
      let s := s.openBlock possible.start.column possible.place .blockMapping
      some { s with keys := none :: outer, keyAllowed := false }
    | _ =>
      if !s.inFlow && !s.keyAllowed then none
      else some { s.openBlock s.cursor.column s.tokens.size .blockMapping with
        keyAllowed := !s.inFlow }
  return (s.emit .value).skip 1

def named? (s : Scanner) (token : String → Token) : Option Scanner := do
  let s ← s.saveKey?
  let (name, next) := (s.cursor.skip 1).takeWhile isNameChar
  let ends := next.closes 0 || next.test 0 ("?:,]\x7d%@\x60".toList.contains ·)
  if name.isEmpty || !ends then none
  return { s.emit (token (String.ofList name)) with cursor := next, keyAllowed := false }

def tagged? (s : Scanner) : Option Scanner := do
  let s ← s.saveKey?
  let (handle, name, next) ← tag? s.cursor
  if !next.closes 0 && !(s.inFlow && next.test 0 (· == ',')) then none
  return { s.emit (.tag handle name) with cursor := next, keyAllowed := false }

def blockScalar? (s : Scanner) (literal : Bool) : Option Scanner := do
  let s ← s.dropKey?
  let (text, next) ← block? literal s.indent (s.cursor.skip 1)
  return { s.emit (.scalar false (String.ofList text)) with cursor := next, keyAllowed := true }

def quotedScalar? (s : Scanner) (quote : Char) : Option Scanner := do
  let s ← s.saveKey?
  let (text, next) ← quoted? quote (s.cursor.rest.length + 1) (s.cursor.skip 1)
  return { s.emit (.scalar false (String.ofList text)) with cursor := next, keyAllowed := false }

def plainScalar? (s : Scanner) : Option Scanner := do
  let s ← s.saveKey?
  let (text, broken, next) ←
    plain? s.inFlow (s.indent + 1).toNat (s.cursor.rest.length + 1) s.cursor
  return { s.emit (.scalar true (String.ofList text)) with cursor := next, keyAllowed := broken }

def startsPlain (s : Scanner) (c : Char) : Bool :=
  if c = '-' then !s.cursor.test 1 isBlank
  else if c = '?' ∨ c = ':' then !s.inFlow && !s.cursor.closes 1
  else !isSpace c && !",[]\x7b\x7d#&*!|>'\"%@\x60".toList.contains c

def token? (s : Scanner) (c : Char) : Option Scanner :=
  let ends := s.cursor.closes 1
  if s.cursor.column = 0 ∧ c = '%' then s.documentDirective?
  else if s.cursor.atDocumentMark then
    s.documentMark? (if c = '-' then .documentStart else .documentEnd)
  else match c with
    | '[' => s.openFlow? .flowSequence
    | '{' => s.openFlow? .flowMapping
    | ']' => s.closeFlow? .flowSequenceEnd
    | '}' => s.closeFlow? .flowMappingEnd
    | ',' => s.flowEntry?
    | '*' => s.named? .alias
    | '&' => s.named? .anchor
    | '!' => s.tagged?
    | '\'' => s.quotedScalar? '\''
    | '"' => s.quotedScalar? '"'
    | c =>
      if c = '-' ∧ ends then s.blockEntry?
      else if c = '?' ∧ (s.inFlow ∨ ends) then s.key?
      else if c = ':' ∧ (s.inFlow ∨ ends) then s.value?
      else if c = '|' ∧ !s.inFlow then s.blockScalar? true
      else if c = '>' ∧ !s.inFlow then s.blockScalar? false
      else if s.startsPlain c then s.plainScalar?
      else none

/-- Reads tokens up to the end of the text, at which all block collections close. -/
def run? : (fuel : Nat) → Scanner → Option (Array Token)
  | 0, _ => none
  | fuel + 1, s => do
    let s := s.skipSpace (s.cursor.rest.length + 1)
    let s ← s.dropStale?
    let s := s.closeBlocks s.cursor.column
    match s.cursor.head? with
    | some c => run? fuel (← s.token? c)
    | none => return (← (s.closeBlocks (-1)).dropKey?).tokens

end Scanner

/-- The tokens of a text, each of which takes a character at least. -/
def tokens? (text : String) : Option (List Token) := do
  let chars := text.toList
  if !chars.all isAllowed then none
  let tokens ← Scanner.run? (chars.length + 1) { cursor := .ofText chars }
  return tokens.toList

end Wiring.Yaml
