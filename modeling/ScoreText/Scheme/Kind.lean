import ScoreText.Token.Trait
/-!
The token kinds of Scheme and what can be said of a kind alone.
-/
namespace ScoreText.Scheme

inductive Kind where
  | string | stringQuotedStart | stringQuotedEnd | stringQuoteEscape
  | comment | lineComment | blockCommentStart | blockCommentEnd
  | openParen | closeParen | vectorStart | quote | dot
  | bool | char | number | fraction | float
  | constantName | keyword | functionName | variableName | word
  | lilyPondStart | lilyPondEnd
  deriving DecidableEq, Repr

def Kind.label : Kind → String
  | .string => "String"
  | .stringQuotedStart => "StringQuotedStart"
  | .stringQuotedEnd => "StringQuotedEnd"
  | .stringQuoteEscape => "StringQuoteEscape"
  | .comment => "Comment"
  | .lineComment => "LineComment"
  | .blockCommentStart => "BlockCommentStart"
  | .blockCommentEnd => "BlockCommentEnd"
  | .openParen => "OpenParen"
  | .closeParen => "CloseParen"
  | .vectorStart => "VectorStart"
  | .quote => "Quote"
  | .dot => "Dot"
  | .bool => "Bool"
  | .char => "Char"
  | .number => "Number"
  | .fraction => "Fraction"
  | .float => "Float"
  | .constantName => "Constant"
  | .keyword => "Keyword"
  | .functionName => "Function"
  | .variableName => "Variable"
  | .word => "Word"
  | .lilyPondStart => "LilyPondStart"
  | .lilyPondEnd => "LilyPondEnd"

def Kind.all : List Kind :=
  [.string, .stringQuotedStart, .stringQuotedEnd, .stringQuoteEscape, .comment, .lineComment,
   .blockCommentStart, .blockCommentEnd, .openParen, .closeParen, .vectorStart, .quote, .dot,
   .bool, .char, .number, .fraction, .float, .constantName, .keyword, .functionName,
   .variableName, .word, .lilyPondStart, .lilyPondEnd]

namespace Kind

/-- Whether the kind is an atom, kept as one item of a list. -/
def isAtom : Kind → Bool
  | .dot | .bool | .char | .number | .fraction | .float | .constantName | .keyword
  | .functionName | .variableName | .word => true
  | _ => false

def capabilities : Kind → List Capability
  | .openParen | .vectorStart | .lilyPondStart => [.matchStart, .indent]
  | .closeParen => [.matchEnd, .dedent]
  | .lilyPondEnd => [.leaver, .matchEnd, .dedent]
  | .blockCommentEnd => [.leaver]
  | .bool | .char | .number | .fraction | .float => [.item]
  | .constantName | .keyword | .functionName | .variableName | .word => [.item]
  | _ => []

def categories : Kind → List Category
  | .string => [.string]
  | .stringQuotedStart => [.string, .stringStart]
  | .stringQuotedEnd => [.string, .stringEnd]
  | .stringQuoteEscape | .char => [.character]
  | .comment | .lineComment | .blockCommentStart | .blockCommentEnd => [.comment]
  | .number | .fraction | .float => [.numeric]
  | _ => []

def pair? : Kind → Option String
  | .openParen | .vectorStart | .closeParen => some "schemeparen"
  | .lilyPondStart | .lilyPondEnd => some "schemelily"
  | _ => none

end Kind

end ScoreText.Scheme
