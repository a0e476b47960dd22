/-! # Places in YAML text

A cursor is what is left of a text, with its place: the bytes and the lines before it, and the
characters before it in its line.
-/
namespace Wiring.Yaml
set_option autoImplicit false

structure Cursor where
  rest : List Char
  index : Nat := 0
  line : Nat := 0
  column : Nat := 0
  deriving Inhabited

/-- Breaks other than these two are all written as a newline. -/
def isSpecialBreak (c : Char) : Bool := c == '\u2028' || c == '\u2029'

def isBreak (c : Char) : Bool := c == '\n' || c == '\r' || c == '\u0085' || isSpecialBreak c

def isBlank (c : Char) : Bool := c == ' ' || c == '\t'

def isSpace (c : Char) : Bool := isBlank c || isBreak c

def isAllowed (c : Char) : Bool :=
  let n := c.toNat
  n == 0x9 || n == 0xA || n == 0xD || (0x20 ≤ n && n ≤ 0x7E) || n == 0x85 ||
    (0xA0 ≤ n && n ≤ 0xFFFD) || 0x10000 ≤ n

namespace Cursor

def ofText (text : List Char) : Cursor := { rest := text }

def head? (cursor : Cursor) : Option Char := cursor.rest.head?

def atEnd (cursor : Cursor) : Bool := cursor.rest.isEmpty

/-- Whether the character at an offset satisfies a test; past the end none does. -/
def test (cursor : Cursor) (offset : Nat) (p : Char → Bool) : Bool := cursor.rest[offset]?.any p

def closes (cursor : Cursor) (offset : Nat) : Bool := cursor.rest[offset]?.all isSpace

def bytes (count : Nat) (text : List Char) : Nat :=
  (text.take count).foldl (fun size c => size + c.utf8Size) 0

def skip (cursor : Cursor) (count : Nat) : Cursor :=
  { cursor with
    rest := cursor.rest.drop count
    index := cursor.index + bytes count cursor.rest
    column := cursor.column + count }

def takeWhile (cursor : Cursor) (p : Char → Bool) : List Char × Cursor :=
  let run := cursor.rest.takeWhile p
  (run, cursor.skip run.length)

def skipWhile (cursor : Cursor) (p : Char → Bool) : Cursor := (cursor.takeWhile p).2

def takeBreak (cursor : Cursor) : List Char × Cursor :=
  let next (count : Nat) (rest : List Char) : Cursor :=
    { rest, index := cursor.index + bytes count cursor.rest, line := cursor.line + 1, column := 0 }
  match cursor.rest with
  | '\r' :: '\n' :: rest => (['\n'], next 2 rest)
  | c :: rest =>
    if isSpecialBreak c then ([c], next 1 rest)
    else if isBreak c then (['\n'], next 1 rest)
    else ([], cursor)
  | [] => ([], cursor)

/-- Goes on to the next line, if nothing but a comment is left on this one. -/
def endLine? (cursor : Cursor) : Option Cursor :=
  let next := cursor.skipWhile isBlank
  let next := if next.test 0 (· == '#') then next.skipWhile fun c => !isBreak c else next
  if next.atEnd || next.test 0 isBreak then some next.takeBreak.2 else none

def atDocumentMark (cursor : Cursor) : Bool :=
  cursor.column == 0 && cursor.closes 3 &&
    (['-', '-', '-'].isPrefixOf cursor.rest || ['.', '.', '.'].isPrefixOf cursor.rest)

end Cursor

structure Gap where
  blanks : List Char := []
  breaks : List Char := []

namespace Gap

/-- Breaks fold: a lone newline is a blank, and the first of several is dropped. -/
def folded : List Char → List Char
  | ['\n'] => [' ']
  | '\n' :: rest => rest
  | breaks => breaks

def text (gap : Gap) : List Char :=
  if gap.breaks.isEmpty then gap.blanks else folded gap.breaks

/-- Takes the spaces up to the next word. After a break, a tab before column `indent` is refused. -/
def take? (indent : Nat) : (fuel : Nat) → Gap → Cursor → Option (Gap × Cursor)
  | 0, _, _ => none
  | fuel + 1, gap, cursor =>
    match cursor.head? with
    | none => some (gap, cursor)
    | some c =>
      if isBlank c then
        if gap.breaks.isEmpty then
          take? indent fuel { gap with blanks := gap.blanks ++ [c] } (cursor.skip 1)
        else if c = '\t' ∧ cursor.column < indent then none
        else take? indent fuel gap (cursor.skip 1)
      else if isBreak c then
        let (written, next) := cursor.takeBreak
        take? indent fuel { gap with breaks := gap.breaks ++ written } next
      else some (gap, cursor)

end Gap
end Wiring.Yaml
