import Wiring.Value.Basic

/-! # JSON numbers

A number without fraction and exponent is an integer if it fits one. Any other is a float: the
digits that fit 64 bits are rounded once, and the power of ten is applied by one more rounding for
each factor of at most `10 ^ 308`.
-/
namespace Wiring.Json
set_option autoImplicit false

structure Numeral where
  negative : Bool
  whole : List Char
  fraction : Option (List Char)
  power : Option Int

def digits? (text : List Char) : Option (List Char × List Char) :=
  let run := text.takeWhile Char.isDigit
  if run.isEmpty then none else some (run, text.dropWhile Char.isDigit)

def fraction? : List Char → Option (Option (List Char) × List Char)
  | '.' :: rest => (digits? rest).map fun (run, rest) => (some run, rest)
  | text => some (none, text)

def power? : List Char → Option (Option Int × List Char)
  | c :: rest =>
    if c = 'e' ∨ c = 'E' then
      let (negative, unsigned) := match rest with
        | '-' :: rest => (true, rest)
        | '+' :: rest => (false, rest)
        | rest => (false, rest)
      (digits? unsigned).map fun (run, rest) =>
        let size : Int := Position.number run
        (some (if negative then -size else size), rest)
    else some (none, c :: rest)
  | [] => some (none, [])

/-- Reads a number after its sign. Its whole part has no leading zeros. -/
def unsigned? (negative : Bool) (text : List Char) : Option (Numeral × List Char) := do
  let (whole, rest) ← digits? text
  if whole.head? == some '0' && 1 < whole.length then none
  let (fraction, rest) ← fraction? rest
  let (power, rest) ← power? rest
  return (⟨negative, whole, fraction, power⟩, rest)

def numeral? : List Char → Option (Numeral × List Char)
  | '-' :: rest => unsigned? true rest
  | text => unsigned? false text

/-- Takes digits onto a number while it fits 64 bits. -/
def gather (n : Nat) : List Char → Nat × List Char
  | [] => (n, [])
  | d :: rest =>
    let next := Position.number [d] + 10 * n
    if next < Nat.pow 2 64 then gather next rest else (n, d :: rest)

def maxPower : Nat := 308

def powerOfTen (n : Nat) : Binary64 := .ofNat (Nat.pow 10 n)

def divided (x : Binary64) (n : Nat) : Binary64 :=
  if n ≤ maxPower then x.div (powerOfTen n)
  else if x.isZero then x
  else divided (x.div (powerOfTen maxPower)) (n - maxPower)
termination_by n
decreasing_by simp only [maxPower] at *; omega

def multiplied? (x : Binary64) (n : Nat) : Option Binary64 :=
  if x.isZero then some x
  else if n ≤ maxPower then
    let product := x.mul (powerOfTen n)
    if product.isFinite then some product else none
  else none

def scaled? (significand : Nat) (power : Int) : Option Binary64 :=
  let x := Binary64.ofNat significand
  if 0 ≤ power then multiplied? x power.toNat else some (divided x (-power).toNat)

def signed (negative : Bool) (x : Binary64) : Binary64 := if negative then x.neg else x

namespace Numeral

/-- The float that a number stands for. Digits of the whole part that do not fit count as zeros. -/
def float? (number : Numeral) : Option Binary64 :=
  let fraction := number.fraction.getD []
  let (start, dropped) := gather 0 number.whole
  let (significand, ignored) := gather start fraction
  let shift : Int := dropped.length - (fraction.length - ignored.length)
  (scaled? significand (shift + number.power.getD 0)).map (signed number.negative)

/-- The integer that a number stands for; zero with a sign is none. -/
def integer? (number : Numeral) : Option Int :=
  let size := Position.number number.whole
  if number.fraction.isSome || number.power.isSome then none
  else if number.negative then
    if 0 < size ∧ size ≤ Nat.pow 2 63 then some (-size) else none
  else if size < Nat.pow 2 63 then some size else none

def value? (number : Numeral) : Option Value :=
  match number.integer? with
  | some n => some (.integer (Int64.ofInt n))
  | none => number.float?.map .float

end Numeral
end Wiring.Json
