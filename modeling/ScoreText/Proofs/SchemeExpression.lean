import ScoreText.Proofs.MarkupExpression

/-! Scheme expressions: how they are written, what a tree that mirrors one looks like, and the strings and
numbers in them. A quote stands right in front of what it quotes.

```text
  #(alist "a \"b\"" '(3 4) ''x ())
```
-/
namespace ScoreText

theorem intercalate_one (c : Char) (part : List Char) (parts : List (List Char)) :
    [c].intercalate (part :: parts) = part ++ parts.flatMap (c :: ·) := by
  induction parts generalizing part with
  | nil => simp
  | cons next parts ih => simp [List.intercalate_cons_cons, ih]

namespace Datum

inductive Atom where
  | number (n : Numeral)
  | word (w : Word)
  | text (value : List Char)

/-- The characters of a string, with a backslash in front of each quote and each backslash. -/
def escaped (value : List Char) : List Char :=
  value.flatMap fun c => if c = '\\' ∨ c = '"' then ['\\', c] else [c]

theorem escaped_quotes (value : List Char) : Quotes (escaped value) value := by
  induction value with
  | nil => exact .done
  | cons c value ih =>
    by_cases escapes : Escapes c
    · have front : escaped (c :: value) = '\\' :: c :: escaped value := by
        simp [escaped, show c = '\\' ∨ c = '"' from escapes]
      exact front ▸ .escape escapes ih
    · have front : escaped (c :: value) = c :: escaped value := by
        simp [escaped, show ¬ (c = '\\' ∨ c = '"') from escapes]
      exact front ▸ .plain escapes ih

namespace Atom

def chars : Atom → List Char
  | number n => n.digits
  | word w => w.letters
  | text value => '"' :: (escaped value ++ ['"'])

def string? : Atom → Option (List Char)
  | text value => some value
  | number _ | word _ => none

/-- The number that digits stand for, if it fits a signed 64-bit word. -/
def integer? : Atom → Option Int
  | number n =>
    if Text.ofDigits n.digits ≤ 9223372036854775807 then some (Text.ofDigits n.digits) else none
  | word _ | text _ => none

end Atom

end Datum

inductive Datum where
  | atom (a : Datum.Atom)
  | quote (quoted : Datum)
  | list (items : List Datum)

namespace Datum

mutual

/-- How an expression is written. There is one space between any two items of a list. -/
def chars : Datum → List Char
  | atom a => a.chars
  | quote d => '\'' :: d.chars
  | list items => '(' :: ([' '].intercalate (charsOfEach items) ++ [')'])

def charsOfEach : List Datum → List (List Char)
  | [] => []
  | d :: ds => d.chars :: charsOfEach ds

end

mutual

/-- How many levels of items an expression takes. -/
def depth : Datum → Nat
  | atom _ => 1
  | quote d => d.depth + 1
  | list items => depthOfAll items + 1

def depthOfAll : List Datum → Nat
  | [] => 0
  | d :: ds => max d.depth (depthOfAll ds)

end

mutual

/-- The atoms of an expression, in order. -/
def atoms : Datum → List Atom
  | atom a => [a]
  | quote d => d.atoms
  | list items => atomsOfAll items

def atomsOfAll : List Datum → List Atom
  | [] => []
  | d :: ds => d.atoms ++ atomsOfAll ds

end

/-- An expression as it stands at the top of a text. -/
def printed (d : Datum) : String :=
  String.ofList ('#' :: d.chars)

/-- How many levels of items the item at the top takes: its own and those of the expression in it. -/
def levels (d : Datum) : Nat :=
  d.depth + 1

/-- The strings of an expression, joined. -/
def joined? (d : Datum) : Option String :=
  match d.atoms.filterMap Atom.string? with
  | [] => none
  | values => some (String.ofList values.flatten)

def integers (d : Datum) : List Int :=
  d.atoms.filterMap Atom.integer?

def firstTwo? (d : Datum) : Option (Int × Int) :=
  match d.integers with
  | a :: b :: _ => some (a, b)
  | _ => none

section Mirror

variable (t : Tree)

def Atom.MirroredBy : Atom → ItemId → Prop
  | number n, id =>
    t.kind id = .schemeItem ∧ (t.item id).text = String.ofList n.digits ∧ t.children id = []
  | word w, id =>
    t.kind id = .schemeItem ∧ (t.item id).text = String.ofList w.letters ∧ t.children id = []
  | text value, id => t.kind id = .string ∧ t.unquoted id = String.ofList value ∧ t.children id = []

mutual

/-- An item and all below it are what an expression says, one to one and in order. -/
def MirroredBy : Datum → ItemId → Prop
  | atom a, id => a.MirroredBy t id
  | quote d, id => t.kind id = .schemeQuote ∧ ∃ c, t.children id = [c] ∧ d.MirroredBy c
  | list items, id => t.kind id = .schemeList ∧ AllMirroredBy items (t.children id)

def AllMirroredBy : List Datum → List ItemId → Prop
  | [], ids => ids = []
  | d :: ds, ids => ∃ id others, ids = id :: others ∧ d.MirroredBy id ∧ AllMirroredBy ds others

end

end Mirror

end Datum

end ScoreText
