import ScoreText.Time.Fraction
/-!
Written durations.

```text
  4.       base 1/4   scaling 3/2   length 3/8
  \breve   base 2     scaling 1     length 2
  8*2/3    base 1/8   scaling 2/3   length 1/12
```
-/
namespace ScoreText

/-- A written duration: the length without dots, and what the dots and factors multiply it by. -/
structure Duration where
  base : Fraction
  scaling : Fraction
  deriving DecidableEq, Repr

def undotted? (length : List Char) : Option Fraction :=
  if length == "\\breve".toList then some 2
  else if length == "\\longa".toList then some 4
  else if length == "\\maxima".toList then some 8
  else (Text.int64? length).bind fun n => if n > 0 then some (Fraction.ofInts 1 n) else none

namespace Duration

def zero : Duration :=
  ⟨0, 1⟩

/-- A quarter note, which is in effect before a duration is written. -/
def quarter : Duration :=
  ⟨1 / 4, 1⟩

def length (d : Duration) : Fraction :=
  d.base * d.scaling

def length? (d : Duration) : Option Fraction :=
  d.base.mul? d.scaling

structure Parts where
  base : Option Fraction
  dots : Nat
  scaling : Fraction

/-- Reads one part: a dot, a factor behind a star, or the length. What follows the length and is
neither dot nor factor is left out. -/
def addPart (p : Parts) (part : List Char) : Option Parts :=
  match Text.trim part with
  | ['.'] => some { p with dots := p.dots + 1 }
  | '*' :: factor => do
    let f ← Fraction.read? (String.ofList (Text.trim factor))
    let scaling ← p.scaling.mul? f
    some { p with scaling }
  | length =>
    match p.base with
    | some _ => some p
    | none => (undotted? length).map fun base => { p with base := some base }

/-- What dots multiply a length by: with each dot half of what the one before added. -/
def dotted? (dots : Nat) : Option Fraction :=
  Fraction.sub? 2 (Fraction.ofInts 1 (Nat.pow 2 (min dots 62) : Nat))

/-- The duration that parts make up, once all are read. -/
def Parts.duration? (p : Parts) : Option Duration := do
  let base ← p.base
  let scaling ←
    if p.dots = 0 then some p.scaling
    else do
      let d ← dotted? p.dots
      p.scaling.mul? d
  let duration : Duration := ⟨base, scaling⟩
  duration.length?.map fun _ => duration

/-- The duration of parts: one length, any number of dots and any number of factors. -/
def ofParts? (parts : List (List Char)) : Option Duration := do
  let p ← parts.foldlM addPart ⟨none, 0, 1⟩
  p.duration?

/-- The factor that a part is, read by a computation on words. Other parts have none. -/
def factor (part : List Char) : Except Overflow (Option Fraction) :=
  match Text.trim part with
  | '*' :: factor => Fraction.read (String.ofList (Text.trim factor))
  | _ => .ok none

/-- Reads parts one after the other. A factor may leave the words, unless a part in front of it
cannot be read. -/
def addParts (p : Parts) : List (List Char) → Except Overflow (Option Parts)
  | [] => .ok (some p)
  | part :: parts => do
    let _ ← factor part
    match addPart p part with
    | some p => addParts p parts
    | none => .ok none

/-- The duration of parts by a computation on words. -/
def ofParts (parts : List (List Char)) : Except Overflow (Option Duration) :=
  (addParts ⟨none, 0, 1⟩ parts).map (·.bind Parts.duration?)

def cut (sep : Char) : List Char → List (List Char)
  | [] => [[]]
  | c :: cs =>
    if c == sep then [] :: cut sep cs
    else match cut sep cs with
      | [] => [[c]]
      | part :: parts => (c :: part) :: parts

/-- The parts of a duration written in one piece: the length, the dots, then the factors. -/
def partsOf (text : String) : List (List Char) :=
  let (written, factors) := (Text.trim text.toList).span (· != '*')
  let length := (written.reverse.dropWhile (· == '.')).reverse
  let dots := List.replicate (written.length - length.length) ['.']
  let factors := (cut '*' factors).filter fun f => !(Text.trim f).isEmpty
  length :: dots ++ factors.map ('*' :: ·)

/-- Reads a duration written in one piece. -/
def read? (text : String) : Option Duration :=
  ofParts? (partsOf text)

/-- Reads a duration written in one piece by a computation on words. -/
def read (text : String) : Except Overflow (Option Duration) :=
  ofParts (partsOf text)

end Duration

end ScoreText
