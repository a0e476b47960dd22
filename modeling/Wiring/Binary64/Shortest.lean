import Wiring.Binary64.Basic

/-! # Shortest decimals

The fewest digits that read back as a given number, and of those the nearest to it.
-/
namespace Wiring.Binary64
set_option autoImplicit false

inductive Tie where
  | toEven
  | up
  deriving DecidableEq

structure Decimal where
  digits : Nat
  exponent : Int
  deriving DecidableEq

/-- The positive reals that round to a number: their bounds and the number itself in units of
`1 / den`, and whether the bounds belong to it. -/
structure Neighbourhood where
  low : Nat
  value : Nat
  high : Nat
  den : Nat
  closed : Bool

/-- Half a unit on each side, a quarter below a power of two. -/
def neighbourhood (x : Binary64) : Neighbourhood :=
  let m := x.significand
  let low := if m = Nat.pow 2 52 ∧ 1 < x.scale then 4 * m - 1 else 4 * m - 2
  let (factor, den) :=
    if 1077 ≤ x.scale then (Nat.pow 2 (x.scale - 1077), 1) else (1, Nat.pow 2 (1077 - x.scale))
  ⟨low * factor, 4 * m * factor, (4 * m + 2) * factor, den, m % 2 == 0⟩

def Neighbourhood.contains (near : Neighbourhood) (num den : Nat) : Bool :=
  let scaled := num * near.den
  if near.closed then near.low * den ≤ scaled && scaled ≤ near.high * den
  else near.low * den < scaled && scaled < near.high * den

/-- The exponent `e` with `10 ^ e ≤ num / den < 10 ^ (e + 1)`, for positive `num` and `den`,
from a guess that is at most one too small. -/
def decimalExponent (num den : Nat) : Int :=
  let guess : Int := (binaryExponent num den * 1233).fdiv 4096 - 1
  let reached (e : Int) :=
    if 0 ≤ e then den * Nat.pow 10 e.toNat ≤ num else den ≤ num * Nat.pow 10 (-e).toNat
  if reached (guess + 2) then guess + 2
  else if reached (guess + 1) then guess + 1
  else guess

/-- The decimal with unit `10 ^ exponent` that is nearest to the number among the two around it,
if one of them reads back. -/
def onGrid? (tie : Tie) (near : Neighbourhood) (exponent : Int) : Option Decimal :=
  let (num, den) : Nat × Nat :=
    if 0 ≤ exponent then (Nat.pow 10 exponent.toNat, 1) else (1, Nat.pow 10 (-exponent).toNat)
  let top := near.value * den
  let unit := near.den * num
  let below := top / unit
  let rest := top % unit
  match near.contains (below * num) den && 0 < below, near.contains ((below + 1) * num) den with
  | true, true =>
    let roundUp := unit < 2 * rest || (2 * rest == unit && (tie == .up || below % 2 == 1))
    some ⟨if roundUp then below + 1 else below, exponent⟩
  | true, false => some ⟨below, exponent⟩
  | false, true => some ⟨below + 1, exponent⟩
  | false, false => none

/-- The shortest decimal of a finite number other than zero. Seventeen digits always suffice. -/
def shortest (tie : Tie) (x : Binary64) : Decimal :=
  let near := x.neighbourhood
  let top := decimalExponent near.value near.den
  ((List.range 17).findSome? fun n : Nat => onGrid? tie near (top - n)).getD ⟨0, 0⟩

end Wiring.Binary64
