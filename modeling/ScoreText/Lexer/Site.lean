import ScoreText.Text.WordChar
/-!
A pattern match seen with its surroundings.

A pattern may accept slightly more than the token it stands for. The kind then looks at the match
and its neighbours and says how many characters the token has, or that it is no such token. The
neighbours are judged by ASCII letters and digits alone.
-/
namespace ScoreText

/-- A match, the character before it and the text after it. -/
structure Site where
  before : Option Char
  lexeme : List Char
  after : List Char

namespace Site

def wholeIf (s : Site) (condition : Bool) : Option Nat :=
  if condition then some s.lexeme.length else none

def holds (p : Char → Bool) : Option Char → Bool
  | some c => p c
  | none => false

def noLetterAfter (s : Site) : Bool :=
  !holds Char.isAlpha s.after.head?

def noDigitAfter (s : Site) : Bool :=
  !holds Char.isDigit s.after.head?

def startsWord (s : Site) : Bool :=
  !holds Text.isAsciiWord s.before

/-- A word begins or ends where the match ends. -/
def boundaryAfter (s : Site) : Bool :=
  holds Text.isAsciiWord s.lexeme.getLast? != holds Text.isAsciiWord s.after.head?

/-- The character behind the first `n` characters of the match. -/
def next? (s : Site) (n : Nat) : Option Char :=
  (s.lexeme.drop n ++ s.after).head?

/-- The length of the longest part that is a word of the table once `skip` characters are taken
off the front, and that no character of class `goesOn` follows. -/
def longestWord? (s : Site) (skip : Nat) (table : List String) (goesOn : Char → Bool) :
    Option Nat :=
  ((List.range (s.lexeme.length - skip)).reverse.map (skip + · + 1)).find? fun n =>
    !holds goesOn (s.next? n) && table.contains (String.ofList ((s.lexeme.take n).drop skip))

/-- A word of the table behind a backslash that no letter follows. -/
def command? (s : Site) (table : List String) : Option Nat :=
  s.longestWord? 1 table Char.isAlpha

/-- A word of the table behind a backslash that no word character follows. -/
def commandWord? (s : Site) (table : List String) : Option Nat :=
  s.longestWord? 1 table Text.isAsciiWord

/-- A word of the table that stands alone. -/
def bareWord? (s : Site) (table : List String) (goesOn : Char → Bool) : Option Nat :=
  if s.startsWord then s.longestWord? 0 table goesOn else none

end Site

end ScoreText
