import ScoreText.Text.Number
/-!
Decimal numbers and the binary number of double precision next to them.
-/
namespace ScoreText.Text

/-- A decimal number: sign, digits and a power of ten. -/
structure Decimal where
  negative : Bool
  digits : Nat
  exponent : Int
  deriving DecidableEq, Repr

namespace Decimal

/-- The exponent of a number in scientific form, zero if none is written. -/
def exponent? : List Char → Option Int
  | [] => some 0
  | c :: cs => if c == 'e' || c == 'E' then integer? cs else none

/-- A number with a point or an exponent, or with both. At least one digit stands before the
exponent. -/
def unsigned? (negative : Bool) (cs : List Char) : Option Decimal :=
  let (whole, rest) := cs.span Char.isDigit
  let (places, rest) := match rest with
    | '.' :: rest => rest.span Char.isDigit
    | rest => ([], rest)
  if whole.isEmpty && places.isEmpty then none
  else (exponent? rest).map fun e => ⟨negative, ofDigits (whole ++ places), e - places.length⟩

def read? (cs : List Char) : Option Decimal :=
  match cs with
  | '-' :: cs => unsigned? true cs
  | '+' :: cs => unsigned? false cs
  | cs => unsigned? false cs

/-- The quotient rounded to the nearest number, a half to the even neighbour. -/
def roundDiv (a b : Nat) : Nat :=
  let q := a / b
  let twice := 2 * (a % b)
  if twice > b || (twice == b && q % 2 == 1) then q + 1 else q

def twoTo (n : Nat) : Nat :=
  Nat.pow 2 n

def tenTo (n : Nat) : Nat :=
  Nat.pow 10 n

def infinite : Nat :=
  2047 * twoTo 52

/-- The nearest number of double precision to the positive quotient, as the 63 bits below the sign.
Numbers too large are infinite and numbers too small are zero. -/
def quotientBits (a b : Nat) : Nat :=
  let scaled (e : Int) : Nat × Nat :=
    if e ≥ 0 then (a, b * twoTo e.toNat) else (a * twoTo (-e).toNat, b)
  let guess : Int := (a.log2 : Int) - b.log2 - 52
  let low := let (x, y) := scaled guess; decide (x < y * twoTo 52)
  let e := max (if low then guess - 1 else guess) (-1074)
  let (x, y) := scaled e
  let m := roundDiv x y
  if e ≥ 972 then infinite
  else if e == -1074 then m
  else min ((e + 1074).toNat * twoTo 52 + m) infinite

/-- The number of double precision next to a decimal number, as its 64 bits. A power of ten far
outside the range is not computed. -/
def bits (d : Decimal) : Nat :=
  let size := if d.digits = 0 then 0
    else
      let e : Int := d.exponent + (Nat.toDigits 10 d.digits).length
      if e > 400 then infinite
      else if e < -400 then 0
      else if d.exponent ≥ 0 then quotientBits (d.digits * tenTo d.exponent.toNat) 1
      else quotientBits d.digits (tenTo (-d.exponent).toNat)
  if d.negative then twoTo 63 + size else size

end Decimal

end ScoreText.Text
