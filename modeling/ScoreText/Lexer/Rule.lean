import ScoreText.Token.Kind
import ScoreText.Token.Mode
/-!
How a region reads its text, and what a token can do to the open regions.
-/
namespace ScoreText

/-- What becomes of text that no candidate of a region claims. -/
inductive Unclaimed where
  /-- it is a token of this kind, up to the next claimed place -/
  | fill (k : TokenKind)
  /-- the region ends in front of it -/
  | leave
  /-- another region takes the place of this one -/
  | replace (r : Region)
  deriving DecidableEq, Repr

/-- How a region reads its text. -/
structure Rule where
  /-- the kinds that may occur, those tried first in front -/
  candidates : List TokenKind
  unclaimed : Unclaimed := .fill .unparsed
  /-- the mode that the region switches to -/
  mode : Option Mode := none
  /-- the arguments that a fresh region waits for; a region that waits for none stays open -/
  arguments : Nat := 0

/-- Whether the region ends or changes where none of its candidates occurs. -/
def Rule.yields (r : Rule) : Bool :=
  match r.unclaimed with
  | .fill _ => false
  | _ => true

/-- What a token does to the open regions. -/
inductive Action where
  | stay
  | argument
  /-- one argument less is awaited, and the region stays open in any case -/
  | spend
  | leave
  | enter (r : Region)
  | enterAwaiting (r : Region) (arguments : Nat)
  | replace (r : Region)
  /-- the region ends and was an argument of the one around it -/
  | leaveThenArgument
  /-- the pending markup arguments end, then the bracket around them, which was an argument -/
  | closeMarkup
  deriving DecidableEq, Repr

end ScoreText
