import Wiring.Yaml.Scalar
import Wiring.Value.Basic

/-! # Plain scalars

Null, booleans and numbers are recognized by how they are written; any other plain scalar is text.
-/
namespace Wiring.Yaml.Plain
set_option autoImplicit false

def isNull (text : String) : Bool := ["", "null", "Null", "NULL", "~"].contains text

def bool? (text : String) : Option Bool :=
  if ["true", "True", "TRUE"].contains text then some true
  else if ["false", "False", "FALSE"].contains text then some false
  else none

def unsigned : List Char → Option Char × List Char
  | '+' :: rest => (some '+', rest)
  | '-' :: rest => (some '-', rest)
  | text => (none, text)

def number? (base : Nat) (digits : List Char) : Option Nat := do
  if digits.isEmpty then none
  let values ← digits.mapM Json.hexDigit?
  if values.all (· < base) then return values.foldl (base * · + ·) 0 else none

/-- Digits after a leading zero are text. -/
def isZeroPadded (digits : List Char) : Bool :=
  match digits with
  | '0' :: rest => !rest.isEmpty && rest.all Char.isDigit
  | _ => false

def size? (digits : List Char) : Option Nat :=
  let based := match digits with
    | '0' :: 'x' :: rest => number? 16 rest
    | '0' :: 'o' :: rest => number? 8 rest
    | '0' :: 'b' :: rest => number? 2 rest
    | _ => none
  match based with
  | some n => some n
  | none => if isZeroPadded digits then none else number? 10 digits

/-- A float has digits before or after its point, or both, and may have an exponent. -/
def float? (text : List Char) : Option Binary64 := do
  let (sign, digits) := unsigned text
  let whole := digits.takeWhile Char.isDigit
  let rest := digits.dropWhile Char.isDigit
  let (fraction, rest) := match rest with
    | '.' :: rest => (rest.takeWhile Char.isDigit, rest.dropWhile Char.isDigit)
    | rest => ([], rest)
  if whole.isEmpty && fraction.isEmpty then none
  let power ← match rest with
    | [] => some (0 : Int)
    | e :: rest =>
      let (sign, digits) := unsigned rest
      if (e == 'e' || e == 'E') && !digits.isEmpty && digits.all Char.isDigit then
        some (if sign == some '-' then -(Position.number digits : Int) else Position.number digits)
      else none
  let x := Binary64.ofDecimal (sign == some '-') (Position.number (whole ++ fraction))
    (power - fraction.length)
  if x.isFinite then return x else none

def isNotFinite (text : String) : Bool :=
  [".inf", ".Inf", ".INF", "+.inf", "+.Inf", "+.INF", "-.inf", "-.Inf", "-.INF",
    ".nan", ".NaN", ".NAN"].contains text

/-- The value of an integer of up to 64 bits. One of up to 128 bits is refused, and a longer one is
no integer. -/
inductive IntegerReading where
  | value (value : Value)
  | refused
  | none

def integer (text : String) : IntegerReading :=
  let (sign, digits) := unsigned text.toList
  match size? digits with
  | none => .none
  | some n =>
    if sign = some '-' then
      if n ≤ Nat.pow 2 63 then .value (.integer (Int64.ofInt (-n)))
      else if n ≤ Nat.pow 2 127 then .refused
      else .none
    else if n < Nat.pow 2 64 then .value (.ofCount n)
    else if n < Nat.pow 2 128 then .refused
    else .none

/-- The float of a text that is no integer. What is not finite counts as null. -/
def decimal? (text : String) : Option Value :=
  if isNotFinite text then some .null
  else if isZeroPadded (unsigned text.toList).2 then none
  else (float? text.toList).map .float

def value? (text : String) : Option Value :=
  if isNull text then some .null
  else match bool? text with
    | some b => some (.bool b)
    | none => match integer text with
      | .value value => some value
      | .refused => none
      | .none => some ((decimal? text).getD (.string text))

end Wiring.Yaml.Plain
