import Wiring.Json.Numeral

/-! # Reading JSON

The entries of a mapping come out in ascending order of their keys; of a repeated key the last value
counts. Containers nest 127 deep at most.
-/
namespace Wiring.Json
set_option autoImplicit false

def isBlank (c : Char) : Bool := c == ' ' || c == '\n' || c == '\t' || c == '\r'

def skipBlanks (text : List Char) : List Char := text.dropWhile isBlank

def hexDigit? (c : Char) : Option Nat :=
  if c.isDigit then some (c.toNat - '0'.toNat)
  else if 'a' ≤ c ∧ c ≤ 'f' then some (c.toNat - 'a'.toNat + 10)
  else if 'A' ≤ c ∧ c ≤ 'F' then some (c.toNat - 'A'.toNat + 10)
  else none

def unit? : List Char → Option (Nat × List Char)
  | a :: b :: c :: d :: rest => do
    let a ← hexDigit? a
    let b ← hexDigit? b
    let c ← hexDigit? c
    let d ← hexDigit? d
    return (((16 * a + b) * 16 + c) * 16 + d, rest)
  | _ => none

/-- The character after a backslash and `u`; two surrogates make one character. -/
def unicode? (text : List Char) : Option (Char × List Char) := do
  let (high, rest) ← unit? text
  if 0xDC00 ≤ high ∧ high < 0xE000 then none
  else if 0xD800 ≤ high ∧ high < 0xDC00 then
    match rest with
    | '\\' :: 'u' :: rest =>
      let (low, rest) ← unit? rest
      if 0xDC00 ≤ low ∧ low < 0xE000 then
        return (Char.ofNat (0x10000 + (high - 0xD800) * 0x400 + (low - 0xDC00)), rest)
      else none
    | _ => none
  else return (Char.ofNat high, rest)

def simpleEscape? (c : Char) : Option Char :=
  if c = '"' ∨ c = '\\' ∨ c = '/' then some c
  else if c = 'b' then some '\x08'
  else if c = 'f' then some '\x0c'
  else if c = 'n' then some '\n'
  else if c = 'r' then some '\r'
  else if c = 't' then some '\t'
  else none

def escaped? : List Char → Option (Char × List Char)
  | [] => none
  | c :: rest => if c = 'u' then unicode? rest else (simpleEscape? c).map (·, rest)

/-- The characters up to the closing quote, and what follows it. Controls are escaped. -/
def string? : (fuel : Nat) → List Char → Option (List Char × List Char)
  | 0, _ => none
  | _, [] => none
  | fuel + 1, c :: rest =>
    if c = '"' then some ([], rest)
    else if c = '\\' then do
      let (first, rest) ← escaped? rest
      let (tail, rest) ← string? fuel rest
      return (first :: tail, rest)
    else if c.toNat < 0x20 then none
    else do
      let (tail, rest) ← string? fuel rest
      return (c :: tail, rest)

def word? (word : String) (text : List Char) : Option (List Char) :=
  if word.toList.isPrefixOf text then some (text.drop word.length) else none

def mappingOf (pairs : List (String × Value)) : Value :=
  .mapping (Entries.sorted (Entries.ofList pairs))

mutual

/-- A value within which containers nest `depth` deep at most, and what follows it. -/
def value? : (fuel depth : Nat) → List Char → Option (Value × List Char)
  | 0, _, _ => none
  | fuel + 1, depth, text =>
    match skipBlanks text with
    | [] => none
    | c :: rest =>
      if c = '"' then
        (string? (rest.length + 1) rest).map fun (chars, rest) =>
          (.string (String.ofList chars), rest)
      else if c = 'n' then (word? "ull" rest).map (.null, ·)
      else if c = 't' then (word? "rue" rest).map (.bool true, ·)
      else if c = 'f' then (word? "alse" rest).map (.bool false, ·)
      else if c = '[' then
        match depth, skipBlanks rest with
        | 0, _ => none
        | _, ']' :: rest => some (.sequence [], rest)
        | depth + 1, rest =>
          (items? fuel depth rest).map fun (items, rest) => (.sequence items, rest)
      else if c = '{' then
        match depth, skipBlanks rest with
        | 0, _ => none
        | _, '}' :: rest => some (.mapping [], rest)
        | depth + 1, rest =>
          (entries? fuel depth rest).map fun (pairs, rest) => (mappingOf pairs, rest)
      else do
        let (number, rest) ← numeral? (c :: rest)
        return (← number.value?, rest)

def items? : (fuel depth : Nat) → List Char → Option (List Value × List Char)
  | 0, _, _ => none
  | fuel + 1, depth, text => do
    let (first, rest) ← value? fuel depth text
    match skipBlanks rest with
    | ',' :: rest =>
      let (tail, rest) ← items? fuel depth rest
      return (first :: tail, rest)
    | ']' :: rest => return ([first], rest)
    | _ => none

def entries? : (fuel depth : Nat) → List Char → Option (List (String × Value) × List Char)
  | 0, _, _ => none
  | fuel + 1, depth, text =>
    match skipBlanks text with
    | '"' :: rest => do
      let (chars, rest) ← string? (rest.length + 1) rest
      match skipBlanks rest with
      | ':' :: rest =>
        let (value, rest) ← value? fuel depth rest
        let first := (String.ofList chars, value)
        match skipBlanks rest with
        | ',' :: rest =>
          let (tail, rest) ← entries? fuel depth rest
          return (first :: tail, rest)
        | '}' :: rest => return ([first], rest)
        | _ => none
      | _ => none
    | _ => none

end

def maxDepth : Nat := 127

/-- Reads the one value that a text holds. Each step takes a character, so twice the length is
steps enough. -/
def read? (text : String) : Option Value := do
  let chars := text.toList
  let (value, rest) ← value? (2 * chars.length + 2) maxDepth chars
  if (skipBlanks rest).isEmpty then return value else none

end Wiring.Json
