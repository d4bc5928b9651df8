/-!
The regions of HTML input: places in which a fixed set of token kinds may occur.
-/
namespace ScoreText.Html

inductive Region where
  | document | attr | stringDQ | stringSQ | comment | value
  | lilyPondAttr | lilyPondFileOptions | lilyPond | lilyPondInline
  deriving DecidableEq, Repr

def Region.label : Region → String
  | .document => "ParseHtml"
  | .attr => "ParseAttr"
  | .stringDQ => "ParseStringDQ"
  | .stringSQ => "ParseStringSQ"
  | .comment => "ParseComment"
  | .value => "ParseValue"
  | .lilyPondAttr => "ParseLilyPondAttr"
  | .lilyPondFileOptions => "ParseLilyPondFileOptions"
  | .lilyPond => "ParseLilyPond"
  | .lilyPondInline => "ParseLilyPondInline"

def Region.all : List Region :=
  [.document, .attr, .stringDQ, .stringSQ, .comment, .value, .lilyPondAttr, .lilyPondFileOptions,
   .lilyPond, .lilyPondInline]

end ScoreText.Html
