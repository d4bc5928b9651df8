/-!
Properties of token kinds that do not depend on the dialect.
-/
namespace ScoreText

/-- What a token does to pairs, pending arguments and indentation. -/
inductive Capability where
  | item
  | leaver
  | matchStart
  | matchEnd
  | indent
  | dedent
  deriving DecidableEq, Repr

def Capability.label : Capability → String
  | item => "ITEM"
  | leaver => "LEAVER"
  | matchStart => "MATCH_START"
  | matchEnd => "MATCH_END"
  | indent => "INDENT"
  | dedent => "DEDENT"

inductive Category where
  | space | comment | string | stringStart | stringEnd | character | numeric | error
  deriving DecidableEq, Repr

def Category.label : Category → String
  | space => "SPACE"
  | comment => "COMMENT"
  | string => "STRING"
  | stringStart => "STRING_START"
  | stringEnd => "STRING_END"
  | character => "CHARACTER"
  | numeric => "NUMERIC"
  | error => "ERROR"

end ScoreText
