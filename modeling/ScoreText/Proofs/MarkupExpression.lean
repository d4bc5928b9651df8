import ScoreText.Lily.Words
import ScoreText.Music.Value

/-! Markup expressions: how they are written, and what a tree that mirrors one looks like. A command stands
in front of its arguments. No bracket says where they end, only how many the command takes.

```text
  \markup \column { \bold \raise #2 up "a \"b\"" \flat }
```
-/
namespace ScoreText

/-- A word of ASCII letters. -/
structure Word where
  letters : List Char
  nonempty : letters ≠ []
  ascii : ∀ c ∈ letters, c.isAlpha = true

/-- An unsigned integer as it is written. -/
structure Numeral where
  digits : List Char
  nonempty : digits ≠ []
  decimal : ∀ c ∈ digits, c.isDigit = true

/-- What a backslash makes stand for itself. -/
def Escapes (c : Char) : Prop :=
  c = '\\' ∨ c = '"'

/-- The text between the quotes of a string, and what it stands for. A backslash in front of another
character is just a backslash. -/
inductive Quotes : List Char → List Char → Prop
  | done : Quotes [] []
  | escape {c : Char} {cs value : List Char} : Escapes c → Quotes cs value →
      Quotes ('\\' :: c :: cs) (c :: value)
  | backslash {c : Char} {cs value : List Char} : ¬ Escapes c → Quotes (c :: cs) value →
      Quotes ('\\' :: c :: cs) ('\\' :: value)
  | plain {c : Char} {cs value : List Char} : ¬ Escapes c → Quotes cs value →
      Quotes (c :: cs) (c :: value)

structure Quoted where
  chars : List Char
  value : List Char
  closed : Quotes chars value

/-- A command of markup. The commands for scores are left out: what stands behind them is music. -/
structure MarkupCommand where
  name : String
  known : Lily.Words.isMarkupCommand name = true
  other : name ≠ "score" ∧ ¬ "score-".toList <+: name.toList

/-- A command for a list of markups takes the list as its only argument. -/
def MarkupCommand.arity (c : MarkupCommand) : Nat :=
  (Lily.Words.markupArguments? c.name).getD 1

mutual

inductive Markup : Type where
  | word (w : Word)
  | quoted (q : Quoted)
  | number (n : Numeral)
  | list {n : Nat} (items : Markups n)
  | command (c : MarkupCommand) (arguments : Markups c.arity)

/-- Expressions in a row, as many as the number says. -/
inductive Markups : Nat → Type where
  | nil : Markups 0
  | cons {n : Nat} (first : Markup) (others : Markups n) : Markups (n + 1)

end

mutual

/-- How an expression is written. There is one space between any two parts. -/
def Markup.chars : Markup → List Char
  | .word w => w.letters
  | .quoted q => '"' :: (q.chars ++ ['"'])
  | .number n => '#' :: n.digits
  | .list items => '\x7b' :: (items.chars ++ [' ', '\x7d'])
  | .command c arguments => '\\' :: (c.name.toList ++ arguments.chars)

/-- Expressions with a space in front of each. -/
def Markups.chars {n : Nat} : Markups n → List Char
  | .nil => []
  | .cons m ms => ' ' :: (m.chars ++ ms.chars)

end

mutual

/-- How many levels of items an expression takes. The value of a Scheme expression lies in it. -/
def Markup.depth : Markup → Nat
  | .word _ | .quoted _ => 1
  | .number _ => 2
  | .list items => items.depth + 1
  | .command _ arguments => arguments.depth + 1

def Markups.depth {n : Nat} : Markups n → Nat
  | .nil => 0
  | .cons m ms => max m.depth ms.depth

end

namespace Markup

def opening : List Char :=
  "\\markup".toList

/-- An expression as it stands at the top of a text. -/
def printed (m : Markup) : String :=
  String.ofList (opening ++ ' ' :: m.chars)

/-- How many levels of items the markup at the top takes: its own and those of the expression in it. -/
def levels (m : Markup) : Nat :=
  m.depth + 1

end Markup

section Mirror

variable (t : Tree)

mutual

/-- An item and all below it are what an expression says, one to one and in order. -/
def Markup.MirroredBy : Markup → ItemId → Prop
  | .word w, id =>
    t.kind id = .markupWord ∧ (t.item id).text = String.ofList w.letters ∧ t.children id = []
  | .quoted q, id =>
    t.kind id = .string ∧ t.unquoted id = String.ofList q.value ∧ t.children id = []
  | .number n, id =>
    t.kind id = .scheme ∧ ∃ value, t.children id = [value] ∧ t.kind value = .schemeItem ∧
      (t.item value).text = String.ofList n.digits ∧ t.children value = []
  | .list items, id => t.kind id = .markupList ∧ items.MirroredBy (t.children id)
  | .command c arguments, id =>
    t.kind id = .markupCommand ∧ (t.item id).text = String.ofList ('\\' :: c.name.toList) ∧
      arguments.MirroredBy (t.children id)

def Markups.MirroredBy {n : Nat} : Markups n → List ItemId → Prop
  | .nil, ids => ids = []
  | .cons m ms, ids => ∃ id others, ids = id :: others ∧ m.MirroredBy id ∧ ms.MirroredBy others

end

end Mirror

end ScoreText
