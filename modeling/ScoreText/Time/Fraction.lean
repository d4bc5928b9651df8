import ScoreText.Text.Blank
import ScoreText.Text.Number
/-!
Exact musical time: fractions whose numerator and denominator are meant to fit a signed 64-bit
word. An operation that would leave the words gives nothing. Only when a fraction as written is
brought to lowest terms, nothing is provided for numbers that leave the words.
-/
namespace ScoreText

/-- Musical time. A whole note lasts 1. -/
abbrev Fraction := Rat

/-- A number that no word can hold, in a computation that does not provide for one. -/
inductive Overflow where
  | overflow
  deriving DecidableEq, Repr

namespace Fraction

/-- Whether numerator and denominator fit a signed 64-bit word. -/
def fits (q : Fraction) : Bool :=
  Text.isWord64 q.num && Text.isWord64 q.den

def mul? (a b : Fraction) : Option Fraction :=
  if fits (a * b) then some (a * b) else none

/-- Whether two fractions can be brought to their common denominator within the words, and the
combined numerators stay there, too. -/
def combines (combine : Int → Int → Int) (a b : Fraction) : Bool :=
  let common := a.den / a.den.gcd b.den * b.den
  let x := (common / a.den : Nat) * a.num
  let y := (common / b.den : Nat) * b.num
  Text.isWord64 common && Text.isWord64 x && Text.isWord64 y && Text.isWord64 (combine x y)

/-- The sum, if it and the summands over the common denominator fit. -/
def add? (a b : Fraction) : Option Fraction :=
  if combines (· + ·) a b then some (a + b) else none

/-- The difference, if it and its terms over the common denominator fit. -/
def sub? (a b : Fraction) : Option Fraction :=
  if combines (· - ·) a b then some (a - b) else none

def ofInts (a b : Int) : Fraction :=
  Rat.divInt a b

def splitSlash (cs : List Char) : Option (List Char × List Char) :=
  match cs.span (· != '/') with
  | (a, _ :: b) => some (a, b)
  | (_, []) => none

/-- The words of a fraction as written: two with a slash between, or one, over 1. -/
def written? (text : String) : Option (Int × Int) :=
  match splitSlash text.toList with
  | some (a, b) => do
    let n ← Text.int64? (Text.trim a)
    let d ← Text.int64? (Text.trim b)
    some (n, d)
  | none => (Text.int64? (Text.trim text.toList)).map fun n => (n, 1)

/-- Reads a number or two numbers with a slash between. The second one must not be zero. -/
def read? (text : String) : Option Fraction :=
  ((written? text).filter fun p => p.2 != 0).map fun p => ofInts p.1 p.2

/-- A number that a computation on words comes to. -/
def word (n : Int) : Except Overflow Int :=
  if Text.isWord64 n then .ok n else .error .overflow

/-- The lowest terms of two words, with the sign in front. The second word is not zero. If it is
negative, both change their sign, which the least word cannot do. -/
def lowest (n d : Int) : Except Overflow (Int × Int) :=
  if n = 0 then .ok (0, 1)
  else if n = d then .ok (1, 1)
  else do
    let divisor ← word (n.gcd d)
    let a ← word (n / divisor)
    let b ← word (d / divisor)
    if b < 0 then do
      let a ← word (-a)
      let b ← word (-b)
      .ok (a, b)
    else .ok (a, b)

/-- Reads a fraction by a computation on words. -/
def read (text : String) : Except Overflow (Option Fraction) :=
  match written? text with
  | none => .ok none
  | some (n, d) =>
    if d = 0 then .ok none
    else (lowest n d).map fun p => some (ofInts p.1 p.2)

def readInts? (text : String) : Option (Int × Int) := do
  let (a, b) ← splitSlash text.toList
  let n ← Text.int64? (Text.trim a)
  let d ← Text.int64? (Text.trim b)
  some (n, d)

def render (q : Fraction) : String :=
  toString q.num ++ "/" ++ toString q.den

end Fraction

end ScoreText
