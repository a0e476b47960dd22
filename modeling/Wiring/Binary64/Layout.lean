import Wiring.Binary64.Shortest

/-! # Layout of decimals

A layout decides where plain notation ends and how an exponent is written.
-/
namespace Wiring.Binary64
set_option autoImplicit false

structure Layout where
  tie : Tie
  /-- The least and the largest exponent of the first digit that are written plainly. -/
  plainFrom : Int
  plainTo : Int
  plus : String
  infinite : String
  notANumber : String

/-- The decimal digits with trailing zeros moved into the exponent. -/
def Decimal.stripped (fuel : Nat) (d : Decimal) : Decimal :=
  match fuel with
  | 0 => d
  | fuel + 1 =>
    if d.digits ≠ 0 ∧ d.digits % 10 = 0 then
      Decimal.stripped fuel ⟨d.digits / 10, d.exponent + 1⟩
    else d

/-- Plain notation always shows a digit on both sides of the point. -/
def plainText (digits : List Char) (exponent : Int) : List Char :=
  if 0 ≤ exponent then digits ++ List.replicate exponent.toNat '0' ++ ['.', '0']
  else
    let places := (-exponent).toNat
    let padded := List.replicate (places + 1 - digits.length) '0' ++ digits
    let whole := padded.length - places
    padded.take whole ++ '.' :: padded.drop whole

def scientificText (plus : String) (digits : List Char) (first : Int) : List Char :=
  let body := match digits with
    | d :: e :: rest => d :: '.' :: e :: rest
    | short => short
  body ++ 'e' :: (if first < 0 then "" else plus).toList ++ (toString first).toList

def Layout.magnitude (layout : Layout) (x : Binary64) : List Char :=
  if x.isZero then ['0', '.', '0']
  else
    let d := (x.shortest layout.tie).stripped 17
    let digits := (toString d.digits).toList
    let first := d.exponent + digits.length - 1
    if layout.plainFrom ≤ first ∧ first ≤ layout.plainTo then plainText digits d.exponent
    else scientificText layout.plus digits first

def Layout.text (layout : Layout) (x : Binary64) : String :=
  if x.isNaN then layout.notANumber
  else
    let body := if x.isFinite then layout.magnitude x else layout.infinite.toList
    String.ofList (if x.negative then '-' :: body else body)

def Layout.json : Layout where
  tie := .toEven
  plainFrom := -5
  plainTo := 15
  plus := "+"
  infinite := "inf"
  notANumber := "NaN"

def Layout.diagnostic : Layout where
  tie := .up
  plainFrom := -4
  plainTo := 15
  plus := ""
  infinite := "inf"
  notANumber := "NaN"

end Wiring.Binary64
