/-!
The regions of Scheme input: places in which a fixed set of token kinds may occur.
-/
namespace ScoreText.Scheme

inductive Region where
  | expression | string | blockComment | lilyPond
  deriving DecidableEq, Repr

def Region.label : Region → String
  | .expression => "ParseScheme"
  | .string => "ParseString"
  | .blockComment => "ParseBlockComment"
  | .lilyPond => "ParseLilyPond"

def Region.all : List Region :=
  [.expression, .string, .blockComment, .lilyPond]

end ScoreText.Scheme
