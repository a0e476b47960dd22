import Wiring.Json.Reader
import Wiring.Yaml.Cursor

/-! # Scalars in YAML text

Plain, quoted and block scalars are read to the text that they stand for.
-/
namespace Wiring.Yaml
set_option autoImplicit false

def plainGoesOn (inFlow : Bool) (cursor : Cursor) : Bool :=
  match cursor.head? with
  | none => false
  | some c =>
    !isSpace c && !(c == ':' && cursor.closes 1) &&
      !(inFlow && (c == ',' || c == '[' || c == ']' || c == '{' || c == '}'))

/-- A colon right before a flow indicator is refused within flow collections. -/
def strayColon (inFlow : Bool) (cursor : Cursor) : Bool :=
  inFlow && cursor.test 0 (· == ':') &&
    cursor.test 1 fun c => c == ',' || c == '?' || c == '[' || c == ']' || c == '{' || c == '}'

def plainRun? (inFlow : Bool) : (fuel : Nat) → Cursor → Option (List Char × Cursor)
  | 0, _ => none
  | fuel + 1, cursor =>
    if strayColon inFlow cursor then none
    else if plainGoesOn inFlow cursor then
      match cursor.head? with
      | some c => (plainRun? inFlow fuel (cursor.skip 1)).map fun (tail, next) => (c :: tail, next)
      | none => none
    else some ([], cursor)

/-- A plain scalar, and whether a line was broken after it. It ends at a comment, a document mark
or a line that is indented less than `indent`. -/
def plain? (inFlow : Bool) (indent : Nat) :
    (fuel : Nat) → Cursor → Option (List Char × Bool × Cursor)
  | 0, _ => none
  | fuel + 1, cursor =>
    if cursor.atDocumentMark || cursor.test 0 (· == '#') then some ([], false, cursor)
    else do
      let (run, next) ← plainRun? inFlow (cursor.rest.length + 1) cursor
      let (gap, after) ← Gap.take? indent (next.rest.length + 1) {} next
      let broken := !gap.breaks.isEmpty
      if run.isEmpty || after.index == next.index || (!inFlow && after.column < indent) then
        return (run, broken, after)
      let (tail, tailBroken, last) ← plain? inFlow indent fuel after
      if tail.isEmpty then return (run, broken, last)
      return (run ++ gap.text ++ tail, tailBroken, last)

def hexadecimal? (cursor : Cursor) (count : Nat) : Option (Nat × Cursor) := do
  let digits := cursor.rest.take count
  if digits.length < count then none
  let values ← digits.mapM Json.hexDigit?
  return (values.foldl (fun n digit => 16 * n + digit) 0, cursor.skip count)

def simpleEscape? (c : Char) : Option Char :=
  match c with
  | '0' => some '\x00'
  | 'a' => some '\x07'
  | 'b' => some '\x08'
  | 't' => some '\t'
  | '\t' => some '\t'
  | 'n' => some '\n'
  | 'v' => some '\x0b'
  | 'f' => some '\x0c'
  | 'r' => some '\r'
  | 'e' => some '\x1b'
  | ' ' => some ' '
  | '"' => some '"'
  | '/' => some '/'
  | '\\' => some '\\'
  | 'N' => some '\u0085'
  | '_' => some '\u00a0'
  | 'L' => some '\u2028'
  | 'P' => some '\u2029'
  | _ => none

def escaped? (cursor : Cursor) : Option (Char × Cursor) := do
  let c ← cursor.head?
  let next := cursor.skip 1
  let coded (count : Nat) : Option (Char × Cursor) := do
    let (code, next) ← hexadecimal? next count
    if code.isValidChar then return (Char.ofNat code, next) else none
  match c with
  | 'x' => coded 2
  | 'u' => coded 4
  | 'U' => coded 8
  | c => (simpleEscape? c).map (·, next)

/-- The characters of a quoted scalar up to the next space or the closing quote, and whether they
end with an escaped line break. -/
def quotedRun? (quote : Char) : (fuel : Nat) → Cursor → Option (List Char × Bool × Cursor)
  | 0, _ => none
  | fuel + 1, cursor =>
    match cursor.rest with
    | [] => some ([], false, cursor)
    | c :: rest =>
      if isSpace c then some ([], false, cursor)
      else if c = quote then
        if quote = '\'' ∧ rest.head? = some quote then
          (quotedRun? quote fuel (cursor.skip 2)).map fun (tail, next) => (c :: tail, next)
        else some ([], false, cursor)
      else if quote = '"' ∧ c = '\\' then
        if cursor.test 1 isBreak then some ([], true, (cursor.skip 1).takeBreak.2)
        else do
          let (first, next) ← escaped? (cursor.skip 1)
          let (tail, next) ← quotedRun? quote fuel next
          return (first :: tail, next)
      else (quotedRun? quote fuel (cursor.skip 1)).map fun (tail, next) => (c :: tail, next)

def quoted? (quote : Char) : (fuel : Nat) → Cursor → Option (List Char × Cursor)
  | 0, _ => none
  | fuel + 1, cursor =>
    if cursor.atDocumentMark || cursor.atEnd then none
    else do
      let (run, escapedBreak, next) ← quotedRun? quote (cursor.rest.length + 1) cursor
      if next.test 0 (· == quote) then return (run, next.skip 1)
      let (gap, after) ← Gap.take? 0 (next.rest.length + 1) {} next
      let (tail, last) ← quoted? quote fuel after
      return (run ++ (if escapedBreak then gap.breaks else gap.text) ++ tail, last)

inductive Chomping where
  | strip
  | clip
  | keep
  deriving DecidableEq

structure BlockHeader where
  chomping : Chomping := .clip
  increment : Option Nat := none

/-- A block header has a chomping mark and an indentation digit in either order. -/
def blockHeader? (cursor : Cursor) : Option (BlockHeader × Cursor) :=
  let chomp? (cursor : Cursor) : Option Chomping :=
    match cursor.head? with
    | some '+' => some .keep
    | some '-' => some .strip
    | _ => none
  let digit? (cursor : Cursor) : Option Nat :=
    (cursor.head?.filter Char.isDigit).map fun c => c.toNat - '0'.toNat
  let (header, next) : BlockHeader × Cursor :=
    match chomp? cursor with
    | some chomping =>
      match digit? (cursor.skip 1) with
      | some n => (⟨chomping, some n⟩, cursor.skip 2)
      | none => (⟨chomping, none⟩, cursor.skip 1)
    | none =>
      match digit? cursor with
      | some n =>
        match chomp? (cursor.skip 1) with
        | some chomping => (⟨chomping, some n⟩, cursor.skip 2)
        | none => (⟨.clip, some n⟩, cursor.skip 1)
      | none => ({}, cursor)
  if header.increment = some 0 then none else some (header, next)

/-- Takes the indentation and the empty lines before the next line of a block. Without a known
`indent` the deepest column counts, from `least` on; the result has the indentation. -/
def blockBreaks? (least : Nat) : (fuel : Nat) → (indent : Option Nat) → (deepest : Nat) →
    Cursor → Option (List Char × Nat × Cursor)
  | 0, _, _, _ => none
  | fuel + 1, indent, deepest, cursor =>
    let room := match indent with
      | some indent => indent - cursor.column
      | none => cursor.rest.length
    let blanks := (cursor.rest.take room).takeWhile (· == ' ')
    let next := cursor.skip blanks.length
    let deepest := max deepest next.column
    if indent.all (next.column < ·) && next.test 0 (· == '\t') then none
    else if next.test 0 isBreak then
      let (written, after) := next.takeBreak
      (blockBreaks? least fuel indent deepest after).map fun (tail, last) =>
        (written ++ tail, last)
    else some ([], indent.getD (max deepest least), next)

/-- The lines of a block scalar whose text so far is `done`, with the break and the empty lines
that wait to be written and whether the last line started with a blank. -/
def blockLines? (literal : Bool) (chomping : Chomping) (indent : Nat) :
    (fuel : Nat) → (done leading trailing : List Char) → (blankLine : Bool) → Cursor →
    Option (List Char × Cursor)
  | 0, _, _, _, _, _ => none
  | fuel + 1, done, leading, trailing, blankLine, cursor =>
    if cursor.column ≠ indent ∨ cursor.atEnd then
      let kept := match chomping with
        | .strip => []
        | .clip => leading
        | .keep => leading ++ trailing
      some (done ++ kept, cursor)
    else do
      let startsBlank := cursor.test 0 isBlank
      let folds := !literal && leading.head? == some '\n' && !blankLine && !startsBlank
      let joint := if folds then (if trailing.isEmpty then [' '] else trailing)
        else leading ++ trailing
      let (line, next) := cursor.takeWhile fun c => !isBreak c
      let (written, next) := next.takeBreak
      let (breaks, _, next) ← blockBreaks? 0 (next.rest.length + 1) (some indent) 0 next
      blockLines? literal chomping indent fuel (done ++ joint ++ line) written breaks startsBlank
        next

/-- A block scalar from after its indicator, in a block that is indented by `parent`. -/
def block? (literal : Bool) (parent : Int) (cursor : Cursor) : Option (List Char × Cursor) := do
  let (header, next) ← blockHeader? cursor
  let start ← next.endLine?
  let given := header.increment.map fun n => (max parent 0).toNat + n
  let least := max (parent + 1).toNat 1
  let (breaks, indent, next) ← blockBreaks? least (start.rest.length + 1) given 0 start
  blockLines? literal header.chomping indent (next.rest.length + 1) [] [] breaks false next

end Wiring.Yaml
