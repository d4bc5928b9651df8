import ScoreText.Token.Trait
/-!
The token kinds of Texinfo and what can be said of a kind alone.
-/
namespace ScoreText.Texinfo

inductive Kind where
  | comment | lineComment | blockCommentStart | blockCommentEnd
  | attributeText | keyword | blockStart | blockEnd | escapeChar | accent
  | verbatim | verbatimStart | verbatimEnd
  | lilyPondBlockStart | lilyPondBlockStartBrace | lilyPondBlockEnd
  | lilyPondEnvStart | lilyPondEnvEnd
  | lilyPondFileStart | lilyPondFileStartBrace
  | lilyPondAttrStart | lilyPondAttrEnd
  deriving DecidableEq, Repr

def Kind.label : Kind → String
  | .comment => "Comment"
  | .lineComment => "LineComment"
  | .blockCommentStart => "BlockCommentStart"
  | .blockCommentEnd => "BlockCommentEnd"
  | .attributeText => "Attribute"
  | .keyword => "Keyword"
  | .blockStart => "BlockStart"
  | .blockEnd => "BlockEnd"
  | .escapeChar => "EscapeChar"
  | .accent => "Accent"
  | .verbatim => "Verbatim"
  | .verbatimStart => "VerbatimStart"
  | .verbatimEnd => "VerbatimEnd"
  | .lilyPondBlockStart => "LilyPondBlockStart"
  | .lilyPondBlockStartBrace => "LilyPondBlockStartBrace"
  | .lilyPondBlockEnd => "LilyPondBlockEnd"
  | .lilyPondEnvStart => "LilyPondEnvStart"
  | .lilyPondEnvEnd => "LilyPondEnvEnd"
  | .lilyPondFileStart => "LilyPondFileStart"
  | .lilyPondFileStartBrace => "LilyPondFileStartBrace"
  | .lilyPondAttrStart => "LilyPondAttrStart"
  | .lilyPondAttrEnd => "LilyPondAttrEnd"

def Kind.all : List Kind :=
  [.comment, .lineComment, .blockCommentStart, .blockCommentEnd, .attributeText, .keyword,
   .blockStart, .blockEnd, .escapeChar, .accent, .verbatim, .verbatimStart, .verbatimEnd,
   .lilyPondBlockStart, .lilyPondBlockStartBrace, .lilyPondBlockEnd, .lilyPondEnvStart,
   .lilyPondEnvEnd, .lilyPondFileStart, .lilyPondFileStartBrace, .lilyPondAttrStart,
   .lilyPondAttrEnd]

namespace Kind

def capabilities : Kind → List Capability
  | .blockCommentEnd | .blockEnd | .verbatimEnd | .lilyPondBlockEnd | .lilyPondEnvEnd
  | .lilyPondAttrEnd => [.leaver]
  | _ => []

def categories : Kind → List Category
  | .comment | .lineComment | .blockCommentStart | .blockCommentEnd => [.comment]
  | .escapeChar | .accent => [.character]
  | _ => []

end Kind

end ScoreText.Texinfo
