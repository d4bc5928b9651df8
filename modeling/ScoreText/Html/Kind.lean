import ScoreText.Token.Trait
/-!
The token kinds of HTML and what can be said of a kind alone.
-/
namespace ScoreText.Html

inductive Kind where
  | comment | commentStart | commentEnd
  | string | stringDQStart | stringSQStart | stringDQEnd | stringSQEnd
  | tagStart | tagEnd | attrName | equalSign | value | entityRef
  | lilyPondVersionTag | lilyPondFileTag | lilyPondFileTagEnd
  | lilyPondInlineTag | lilyPondCloseTag | lilyPondTagEnd | lilyPondInlineTagEnd
  | semiColon
  deriving DecidableEq, Repr

def Kind.label : Kind → String
  | .comment => "Comment"
  | .commentStart => "CommentStart"
  | .commentEnd => "CommentEnd"
  | .string => "String"
  | .stringDQStart => "StringDQStart"
  | .stringSQStart => "StringSQStart"
  | .stringDQEnd => "StringDQEnd"
  | .stringSQEnd => "StringSQEnd"
  | .tagStart => "TagStart"
  | .tagEnd => "TagEnd"
  | .attrName => "AttrName"
  | .equalSign => "EqualSign"
  | .value => "Value"
  | .entityRef => "EntityRef"
  | .lilyPondVersionTag => "LilyPondVersionTag"
  | .lilyPondFileTag => "LilyPondFileTag"
  | .lilyPondFileTagEnd => "LilyPondFileTagEnd"
  | .lilyPondInlineTag => "LilyPondInlineTag"
  | .lilyPondCloseTag => "LilyPondCloseTag"
  | .lilyPondTagEnd => "LilyPondTagEnd"
  | .lilyPondInlineTagEnd => "LilyPondInlineTagEnd"
  | .semiColon => "SemiColon"

def Kind.all : List Kind :=
  [.comment, .commentStart, .commentEnd, .string, .stringDQStart, .stringSQStart, .stringDQEnd,
   .stringSQEnd, .tagStart, .tagEnd, .attrName, .equalSign, .value, .entityRef,
   .lilyPondVersionTag, .lilyPondFileTag, .lilyPondFileTagEnd, .lilyPondInlineTag,
   .lilyPondCloseTag, .lilyPondTagEnd, .lilyPondInlineTagEnd, .semiColon]

namespace Kind

def capabilities : Kind → List Capability
  | .commentEnd | .tagEnd | .value | .stringDQEnd | .stringSQEnd | .lilyPondFileTagEnd
  | .lilyPondCloseTag | .lilyPondInlineTagEnd => [.leaver]
  | _ => []

def categories : Kind → List Category
  | .comment | .commentStart | .commentEnd => [.comment]
  | .string => [.string]
  | .stringDQStart | .stringSQStart => [.string, .stringStart]
  | .stringDQEnd | .stringSQEnd => [.string, .stringEnd]
  | .entityRef => [.character]
  | _ => []

end Kind

end ScoreText.Html
