import Wiring.Yaml.Scalar

/-! # Names of tags in YAML text

A name is written as a handle and a rest, and the handle stands for what the full name starts with.
In the rest a character may be written by its bytes, each of them as two hexadecimal digits after a
percent sign.
-/
namespace Wiring.Yaml
set_option autoImplicit false

def isNameChar (c : Char) : Bool := c.isAlphanum || c == '_' || c == '-'

/-- What may stand in a name as it is. Flow indicators may in a `delimited` one. -/
def isTagChar (delimited : Bool) (c : Char) : Bool :=
  isNameChar c || ";/?:@&=+$.!~*'()".toList.contains c || (delimited && ",[]".toList.contains c)

def standardTag : String := "tag:yaml.org,2002:"

/-- What a name starts with after each handle, unless a document says otherwise. -/
def standardHandles : List (String × String) := [("!", "!"), ("!!", standardTag)]

/-- How many bytes a character takes, by the first of them. -/
def sizeOfFirst (byte : Nat) : Nat :=
  if byte < 0xC0 then 1 else if byte < 0xE0 then 2 else if byte < 0xF0 then 3 else 4

def writtenBytes? : (count : Nat) → Cursor → Option (List Nat × Cursor)
  | 0, cursor => some ([], cursor)
  | count + 1, cursor => do
    if !cursor.test 0 (· == '%') then none
    let (byte, next) ← hexadecimal? (cursor.skip 1) 2
    let (bytes, next) ← writtenBytes? count next
    return (byte :: bytes, next)

def writtenChar? (cursor : Cursor) : Option (List Char × Cursor) := do
  let (first, _) ← writtenBytes? 1 cursor
  let (bytes, next) ← writtenBytes? (sizeOfFirst (first.headD 0)) cursor
  let text ← String.fromUTF8? ⟨(bytes.map (·.toUInt8)).toArray⟩
  return (text.toList, next)

def tagRest? (delimited : Bool) : (fuel : Nat) → Cursor → Option (List Char × Cursor)
  | 0, _ => none
  | fuel + 1, cursor => do
    match cursor.head? with
    | none => return ([], cursor)
    | some c =>
      if c = '%' then
        let (first, next) ← writtenChar? cursor
        let (tail, next) ← tagRest? delimited fuel next
        return (first ++ tail, next)
      else if isTagChar delimited c then
        let (tail, next) ← tagRest? delimited fuel (cursor.skip 1)
        return (c :: tail, next)
      else return ([], cursor)

def tagName? (delimited : Bool) (cursor : Cursor) : Option (String × Cursor) := do
  let (name, next) ← tagRest? delimited (cursor.rest.length + 1) cursor
  if name.isEmpty then none else return (String.ofList name, next)

/-- A handle is an exclamation mark alone, or two with or without a name between them. -/
def handle? (cursor : Cursor) : Option (String × Cursor) := do
  if !cursor.test 0 (· == '!') then none
  let (name, next) := (cursor.skip 1).takeWhile isNameChar
  if next.test 0 (· == '!') then return ("!" ++ String.ofList name ++ "!", next.skip 1)
  else if name.isEmpty then return ("!", next)
  else none

/-- A tag by its handle and the rest of its name. A full name stands in angle brackets, without a
handle, and a mark without a name is a name of its own. -/
def tag? (cursor : Cursor) : Option (String × String × Cursor) := do
  if cursor.test 1 (· == '<') then
    let (name, next) ← tagName? true (cursor.skip 2)
    if next.test 0 (· == '>') then return ("", name, next.skip 1) else none
  match handle? cursor with
  | some (handle, next) =>
    if handle ≠ "!" then
      let (name, next) ← tagName? false next
      return (handle, name, next)
  | none => pure ()
  let (name, next) ← tagRest? false (cursor.rest.length + 1) (cursor.skip 1)
  if name.isEmpty then return ("", "!", next) else return ("!", String.ofList name, next)

inductive Directive where
  | version
  | handle (handle lead : String)
  deriving DecidableEq

def versionNumber? (cursor : Cursor) : Option (Nat × Cursor) := do
  let (digits, next) := cursor.takeWhile Char.isDigit
  if 9 < digits.length then none else return (← (String.ofList digits).toNat?, next)

def version? (cursor : Cursor) : Option (Directive × Cursor) := do
  let (major, next) ← versionNumber? cursor
  if !next.test 0 (· == '.') then none
  let (minor, next) ← versionNumber? (next.skip 1)
  if major = 1 ∧ (minor = 1 ∨ minor = 2) then return (.version, next) else none

def handleDirective? (cursor : Cursor) : Option (Directive × Cursor) := do
  let (handle, next) ← handle? cursor
  if !next.test 0 isBlank then none
  let (lead, next) ← tagName? true (next.skipWhile isBlank)
  if next.closes 0 then return (.handle handle lead, next) else none

/-- A directive on a line of its own, from its percent sign to the start of the next line. -/
def directive? (cursor : Cursor) : Option (Directive × Cursor) := do
  let (name, next) := (cursor.skip 1).takeWhile isNameChar
  if !next.closes 0 then none
  let next := next.skipWhile isBlank
  let (directive, next) ← match String.ofList name with
    | "YAML" => version? next
    | "TAG" => handleDirective? next
    | _ => none
  return (directive, ← next.endLine?)

end Wiring.Yaml
