/-! # Double-precision numbers

A number is its IEEE 754 bit pattern. Arithmetic is exact on naturals, followed by one rounding
to the nearest number, halves going to the even one.
-/
namespace Wiring
set_option autoImplicit false

structure Binary64 where
  bits : UInt64
  deriving DecidableEq, Inhabited

namespace Binary64

def negative (x : Binary64) : Bool := x.bits >>> 63 == 1

def exponentField (x : Binary64) : Nat := ((x.bits >>> 52) &&& 0x7ff).toNat

def fraction (x : Binary64) : Nat := (x.bits &&& 0xfffffffffffff).toNat

def isNaN (x : Binary64) : Bool := x.exponentField == 0x7ff && x.fraction != 0

def isFinite (x : Binary64) : Bool := x.exponentField != 0x7ff

def isZero (x : Binary64) : Bool := x.exponentField == 0 && x.fraction == 0

def canonicalNaN : Binary64 := ⟨0x7ff8000000000000⟩

def infinityBits : Nat := 0x7ff0000000000000

def signBits (negative : Bool) : Nat := if negative then 0x8000000000000000 else 0

def zero (negative : Bool) : Binary64 := ⟨UInt64.ofNat (signBits negative)⟩

def significand (x : Binary64) : Nat :=
  if x.exponentField = 0 then x.fraction else Nat.pow 2 52 + x.fraction

/-- A finite number is its significand in units of `2 ^ (scale - 1075)`. -/
def scale (x : Binary64) : Nat := max 1 x.exponentField

def quotient (x : Binary64) : Nat × Nat :=
  if 1075 ≤ x.scale then (x.significand * Nat.pow 2 (x.scale - 1075), 1)
  else (x.significand, Nat.pow 2 (1075 - x.scale))

/-- The nearest natural to a quotient, a half going to the even neighbour. -/
def roundHalfEven (num den : Nat) : Nat :=
  let q := num / den
  let r := num % den
  if 2 * r < den then q
  else if den < 2 * r then q + 1
  else if q % 2 = 0 then q else q + 1

/-- The exponent `e` with `2 ^ e ≤ num / den < 2 ^ (e + 1)`, for positive `num` and `den`. -/
def binaryExponent (num den : Nat) : Int :=
  let e : Int := num.log2 - den.log2
  let reached := if 0 ≤ e then den * Nat.pow 2 e.toNat ≤ num else den ≤ num * Nat.pow 2 (-e).toNat
  if reached then e else e - 1

/-- The number nearest to a quotient; it is infinite from half a unit past the largest. -/
def ofQuotient (negative : Bool) (num den : Nat) : Binary64 :=
  if num = 0 then zero negative
  else
    let unit : Int := max (binaryExponent num den - 52) (-1074)
    let m :=
      if 0 ≤ unit then roundHalfEven num (den * Nat.pow 2 unit.toNat)
      else roundHalfEven (num * Nat.pow 2 (-unit).toNat) den
    let magnitude := (unit + 1074).toNat * Nat.pow 2 52 + m
    ⟨UInt64.ofNat (signBits negative + min magnitude infinityBits)⟩

def ofNat (n : Nat) : Binary64 := ofQuotient false n 1

def ofInt (n : Int) : Binary64 := ofQuotient (n < 0) n.natAbs 1

def infinity (negative : Bool) : Binary64 :=
  ⟨UInt64.ofNat (signBits negative + infinityBits)⟩

/-- The number nearest to a decimal `digits * 10 ^ exponent`. Beyond `10 ^ 400` it is infinite and
below `10 ^ -400` it is zero, so that the powers stay small. -/
def ofDecimal (negative : Bool) (digits : Nat) (exponent : Int) : Binary64 :=
  if digits = 0 then zero negative
  else if 400 < exponent then infinity negative
  else if exponent + digits.log2 + 1 < -400 then zero negative
  else if 0 ≤ exponent then ofQuotient negative (digits * Nat.pow 10 exponent.toNat) 1
  else ofQuotient negative digits (Nat.pow 10 (-exponent).toNat)

def mul (x y : Binary64) : Binary64 :=
  let (a, b) := x.quotient
  let (c, d) := y.quotient
  ofQuotient (x.negative != y.negative) (a * c) (b * d)

def div (x y : Binary64) : Binary64 :=
  let (a, b) := x.quotient
  let (c, d) := y.quotient
  ofQuotient (x.negative != y.negative) (a * d) (b * c)

def neg (x : Binary64) : Binary64 := ⟨x.bits ^^^ 0x8000000000000000⟩

def beq (x y : Binary64) : Bool :=
  !x.isNaN && !y.isNaN && (x.bits == y.bits || (x.isZero && y.isZero))

instance : BEq Binary64 := ⟨beq⟩

theorem beq_self_iff (x : Binary64) : (x == x) = true ↔ x.isNaN = false := by
  simp [BEq.beq, beq]

theorem beq_comm (x y : Binary64) : (x == y) = (y == x) := by
  change beq x y = beq y x
  simp only [beq, Bool.and_comm x.isZero, Bool.and_comm (!x.isNaN), BEq.comm (a := x.bits)]

end Binary64
end Wiring
