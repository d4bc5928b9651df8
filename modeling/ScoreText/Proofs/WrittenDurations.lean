import Mathlib.Tactic.NormNum
import ScoreText.Proofs.Lengths
import ScoreText.Proofs.LowestTerms
import ScoreText.Proofs.MarkupExpression
import ScoreText.Proofs.Numerals

/-! Durations as they are written: one length, with dots and factors around it in any order. What is read
is exact, and there are just the limits that the words set. A duration in one piece is read as its parts
are.

```text
  4.*2/3*5    parts 4 . *2/3 *5    base 1/4    scaling 3/2 * 2/3 * 5
```
-/
namespace ScoreText

open Text

def Numeral.value (n : Numeral) : Nat :=
  ofDigits n.digits

/-- What may stand in front of a number. -/
inductive Sign where
  | none
  | plus
  | minus

namespace Sign

def chars : Sign → List Char
  | none => []
  | plus => ['+']
  | minus => ['-']

def apply (n : Nat) : Sign → Int
  | minus => -n
  | _ => n

end Sign

/-- A length as it is written. -/
inductive WrittenLength where
  | breve
  | longa
  | maxima
  | number (sign : Sign) (n : Numeral)

namespace WrittenLength

def chars : WrittenLength → List Char
  | breve => "\\breve".toList
  | longa => "\\longa".toList
  | maxima => "\\maxima".toList
  | number sign n => sign.chars ++ n.digits

def value : WrittenLength → Fraction
  | breve => 2
  | longa => 4
  | maxima => 8
  | number sign n => 1 / sign.apply n.value

/-- Whether a length can be read. Only numbers above zero are lengths. -/
def Tellable : WrittenLength → Prop
  | number sign n => 0 < sign.apply n.value ∧ isWord64 (sign.apply n.value)
  | _ => True

end WrittenLength

/-- A factor behind a star: a number, or two with a slash between. -/
structure Factor where
  above : Numeral
  below : Option Numeral

namespace Factor

def text (f : Factor) : List Char :=
  f.above.digits ++ f.below.elim [] ('/' :: ·.digits)

def chars (f : Factor) : List Char :=
  '*' :: f.text

def denominator (f : Factor) : Nat :=
  f.below.elim 1 Numeral.value

def value (f : Factor) : Fraction :=
  (f.above.value : Int) / (f.denominator : Int)

/-- Whether a factor can be read. -/
structure Tellable (f : Factor) : Prop where
  above : isWord64 f.above.value
  below : isWord64 f.denominator
  nonzero : f.denominator ≠ 0

end Factor

/-- What stands around a length. -/
inductive Modifier where
  | dot
  | factor (f : Factor)

namespace Modifier

def chars : Modifier → List Char
  | dot => ['.']
  | factor f => f.chars

def factor? : Modifier → Option Factor
  | dot => none
  | factor f => some f

end Modifier

/-- How many dots are among some modifiers. -/
def dotsIn (ms : List Modifier) : Nat :=
  ms.countP (·.factor?.isNone)

def factorsIn (ms : List Modifier) : List Factor :=
  ms.filterMap Modifier.factor?

/-- A duration as it is written. -/
structure WrittenDuration where
  front : List Modifier
  length : WrittenLength
  back : List Modifier

/-- Whether a product fits with each factor that it is multiplied by. -/
def ProductsFit (product : Fraction) : List Factor → Prop
  | [] => True
  | f :: fs => f.Tellable ∧ (product * f.value).fits ∧ ProductsFit (product * f.value) fs

namespace WrittenDuration

def texts (w : WrittenDuration) : List (List Char) :=
  w.front.map Modifier.chars ++ w.length.chars :: w.back.map Modifier.chars

def modifiers (w : WrittenDuration) : List Modifier :=
  w.front ++ w.back

def dots (w : WrittenDuration) : Nat :=
  dotsIn w.modifiers

def factors (w : WrittenDuration) : List Factor :=
  factorsIn w.modifiers

/-- What dots and factors multiply the length by. -/
def scaling (w : WrittenDuration) : Fraction :=
  (w.factors.map Factor.value).prod * (2 - 1 / 2 ^ w.dots)

def duration (w : WrittenDuration) : Duration :=
  ⟨w.length.value, w.scaling⟩

/-- Whether all that a duration is computed from fits. -/
structure Tellable (w : WrittenDuration) : Prop where
  length : w.length.Tellable
  factors : ProductsFit 1 w.factors
  dots : w.dots < 62
  scaling : w.scaling.fits
  total : w.duration.length.fits

end WrittenDuration

section Characters

def lengthChars : List Char :=
  "\\abegilmnorvx+-0123456789".toList

theorem Numeral.listed (n : Numeral) : ∀ c ∈ n.digits, c ∈ "0123456789".toList :=
  fun c member => digit_listed (n.decimal c member)

theorem WrittenLength.listed (l : WrittenLength) : ∀ c ∈ l.chars, c ∈ lengthChars := by
  cases l with
  | breve => exact all_listed (by decide)
  | longa => exact all_listed (by decide)
  | maxima => exact all_listed (by decide)
  | number sign n =>
    have signs : ∀ c ∈ sign.chars, c ∈ lengthChars := by cases sign <;> exact all_listed (by decide)
    have digits : ∀ c ∈ "0123456789".toList, c ∈ lengthChars := all_listed (by decide)
    intro c member
    rcases List.mem_append.mp member with inside | inside
    · exact signs c inside
    · exact digits c (n.listed c inside)

/-- In a length nothing is blank, and there are no dots and stars. -/
theorem WrittenLength.plain (l : WrittenLength) : ∀ c ∈ l.chars, isBlank c = false ∧ c ≠ '.' ∧ c ≠ '*' := by
  have all : ∀ c ∈ lengthChars, isBlank c = false ∧ c ≠ '.' ∧ c ≠ '*' := all_listed (by decide)
  exact fun c member => all c (l.listed c member)

theorem Factor.plain (f : Factor) : ∀ c ∈ f.text, isBlank c = false ∧ c ≠ '*' := by
  have all : ∀ c ∈ "/0123456789".toList, isBlank c = false ∧ c ≠ '*' := all_listed (by decide)
  have digits : ∀ c ∈ "0123456789".toList, c ∈ "/0123456789".toList := all_listed (by decide)
  intro c member
  apply all
  rcases List.mem_append.mp member with inside | inside
  · exact digits c (f.above.listed c inside)
  · cases below : f.below with
    | none => simp [below] at inside
    | some n =>
      rcases List.mem_cons.mp (below ▸ inside) with rfl | inside
      · decide
      · exact digits c (n.listed c inside)

theorem Modifier.solid (m : Modifier) : ∀ c ∈ m.chars, isBlank c = false := by
  cases m with
  | dot => exact all_listed (by decide)
  | factor f =>
    intro c member
    rcases List.mem_cons.mp member with rfl | inside
    · decide
    · exact (f.plain c inside).1

theorem Numeral.trimmed (n : Numeral) : trim n.digits = n.digits :=
  trim_digits n.decimal

theorem WrittenLength.trimmed (l : WrittenLength) : trim l.chars = l.chars :=
  trim_solid fun c member => (l.plain c member).1

theorem Factor.trimmed (f : Factor) : trim f.text = f.text :=
  trim_solid fun c member => (f.plain c member).1

theorem Modifier.trimmed (m : Modifier) : trim m.chars = m.chars :=
  trim_solid m.solid

end Characters

section Reading

theorem Numeral.int64 (n : Numeral) : int64? n.digits = if isWord64 n.value then some (n.value : Int) else none :=
  int64_digits n.nonempty n.decimal

theorem Numeral.no_slash (n : Numeral) : '/' ∉ n.digits :=
  fun member => absurd (n.decimal '/' member) (by decide)

namespace Factor

open Fraction in
theorem written (f : Factor) :
    Fraction.written? (String.ofList f.text) =
      if isWord64 f.above.value ∧ isWord64 f.denominator then some ((f.above.value : Int), (f.denominator : Int))
      else none := by
  unfold Fraction.written?
  cases below : f.below with
  | none =>
    have text : f.text = f.above.digits := by simp [Factor.text, below]
    have one : f.denominator = 1 := by simp [denominator, below]
    rw [String.toList_ofList, text, splitSlash_plain f.above.no_slash, one]
    have word : isWord64 1 = true := rfl
    by_cases above : isWord64 f.above.value <;> simp [f.above.trimmed, f.above.int64, above, word]
  | some n =>
    have text : f.text = f.above.digits ++ '/' :: n.digits := by simp [Factor.text, below]
    have value : f.denominator = n.value := by simp [denominator, below]
    rw [String.toList_ofList, text, splitSlash_append f.above.no_slash, value]
    by_cases above : isWord64 f.above.value <;> by_cases under : isWord64 n.value <;>
      simp [f.above.trimmed, n.trimmed, f.above.int64, n.int64, above, under]

/-- Without a sign below the slash, the words are never left. -/
theorem read_words (f : Factor) :
    Fraction.read (String.ofList f.text) = .ok (Fraction.read? (String.ofList f.text)) := by
  by_cases words : isWord64 f.above.value ∧ isWord64 f.denominator
  · have written := f.written
    rw [if_pos words] at written
    rw [(Fraction.written_iff.mp written).read_eq, Fraction.read?, written]
    by_cases zero : f.denominator = 0
    · simp [zero]
    · have inside : Fraction.fits (Fraction.ofInts f.above.value f.denominator) := by
        by_contra outside
        have negative := Fraction.neg_of_not_fits words.1 words.2 (Int.natCast_ne_zero.mpr zero) outside
        omega
      simp [zero, inside]
  · have written := f.written
    rw [if_neg words] at written
    simp [Fraction.read, Fraction.read?, written]

end Factor

namespace Duration

variable {p : Parts}

end Duration

end Reading

section Parts

namespace Duration

variable {p q : Parts}

/-- Parts are read by the computation on words if each factor is. -/
theorem addParts_words {p : Parts} {parts : List (List Char)}
    (words : ∀ part ∈ parts, ∃ f, factor part = .ok f) : addParts p parts = .ok (parts.foldlM addPart p) := by
  induction parts generalizing p with
  | nil => rfl
  | cons part parts ih =>
    obtain ⟨f, read⟩ := words part List.mem_cons_self
    have others := fun part member => words part (List.mem_cons_of_mem _ member)
    rw [addParts, read, List.foldlM_cons]
    cases addPart p part with
    | none => rfl
    | some next => exact ih others

end Duration

end Parts

namespace WrittenDuration

open Duration

theorem words (w : WrittenDuration) : ofParts w.texts = .ok (ofParts? w.texts) := by
  have modifier (m : Modifier) : ∃ f, factor m.chars = .ok f := by
    cases m with
    | dot => exact ⟨none, rfl⟩
    | factor f =>
      rw [factor, Modifier.trimmed]
      exact ⟨_, by rw [← f.read_words, ← f.trimmed]; rfl⟩
  have length : factor w.length.chars = .ok none := by
    unfold factor
    rw [w.length.trimmed]
    split
    · rename_i text
      exact absurd rfl (w.length.plain '*' (by simp [text])).2.2
    · rfl
  have all : ∀ part ∈ w.texts, ∃ f, factor part = .ok f := by
    intro part member
    rcases List.mem_append.mp member with front | rest
    · obtain ⟨m, _, rfl⟩ := List.mem_map.mp front
      exact modifier m
    · rcases List.mem_cons.mp rest with rfl | back
      · exact ⟨none, length⟩
      · obtain ⟨m, _, rfl⟩ := List.mem_map.mp back
        exact modifier m
  rw [ofParts, addParts_words all]
  rfl

end WrittenDuration

section Pieces

namespace Duration

variable {sep : Char} {cs : List Char}

end Duration

end Pieces

namespace Duration

example : ofParts ["4".toList, ".".toList, "*2/3".toList, ".".toList] = .ok (some ⟨1 / 4, 7 / 6⟩) := by
  decide +kernel

end Duration

end ScoreText
