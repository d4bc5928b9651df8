import ScoreText.Lexer.Site
import ScoreText.Lily.Rules
import ScoreText.Pattern
import ScoreText.Scheme.Words
/-!
How Scheme is read. An expression within music is a region that waits for one argument: the first
complete atom or list ends it.
-/
namespace ScoreText.Scheme

open Pattern

private def word : Pattern :=
  oneOrMore fun c => !("()\"\x7b\x7d".toList.contains c || Text.isBlank c)

private def sign : Pattern := opt (char '-')

private def isHexDigit (c : Char) : Bool :=
  c.isDigit || ('a' ≤ c && c ≤ 'f') || ('A' ≤ c && c ≤ 'F')

def Kind.pattern : Kind → Pattern
  | .string | .comment => never
  | .stringQuotedStart | .stringQuotedEnd => Pattern.char '"'
  | .stringQuoteEscape => seq (Pattern.char '\\') (among "\\\"")
  | .lineComment => seq (Pattern.char ';') line
  | .blockCommentStart => text "#!"
  | .blockCommentEnd => text "!#"
  | .openParen => text "("
  | .closeParen => text ")"
  | .vectorStart => text "#("
  | .quote => among "'`,"
  | .dot => Pattern.char '.'
  | .bool => seq (Pattern.char '#') (among "tf")
  | .char => seq (text "#\\") (alt (oneOrMore Char.isLower) (one (· != '\n')))
  | .number =>
    oneOf [seq sign digits,
      seq (Pattern.char '#') (oneOf [
        seq (Pattern.char 'b') (oneOrMore fun c => '0' ≤ c && c ≤ '1'),
        seq (Pattern.char 'o') (oneOrMore fun c => '0' ≤ c && c ≤ '7'),
        seq (Pattern.char 'x') (oneOrMore isHexDigit)]),
      seq (among "-+") (text "inf.0"),
      seq (opt (among "-+")) (text "nan.0")]
  | .fraction => sequence [sign, digits, Pattern.char '/', digits]
  | .float =>
    sequence [sign,
      alt (sequence [digits, Pattern.char '.', run Text.isDecimal]) (seq (Pattern.char '.') digits),
      opt (seq (Pattern.char 'E') digits)]
  | .constantName | .keyword | .functionName | .variableName | .word => Scheme.word
  | .lilyPondStart => text "#\x7b"
  | .lilyPondEnd => text "#\x7d"

def Kind.keep? (k : Kind) (s : Site) : Option Nat :=
  let among (table : List String) := s.wholeIf (table.contains (String.ofList s.lexeme))
  let ends (p : Char → Bool) : Bool :=
    match s.after.head? with
    | some c => p c
    | none => true
  match k with
  | .dot => s.wholeIf (ends Text.isBlank)
  | .bool => s.wholeIf s.boundaryAfter
  | .number | .fraction | .float => s.wholeIf (ends fun c => c == ')' || Text.isBlank c)
  | .constantName => among Words.constants
  | .keyword => among Words.keywords
  | .functionName => among Words.functions
  | .variableName => among Words.knownVariables
  | _ => s.wholeIf true

def Region.rule : Region → Rule
  | .expression =>
    { candidates := .space :: List.map TokenKind.scheme
        [.openParen, .closeParen, .lineComment, .blockCommentStart, .lilyPondStart, .vectorStart,
         .dot, .bool, .char, .quote, .fraction, .float, .number, .constantName, .keyword,
         .functionName, .variableName, .word, .stringQuotedStart]
      mode := some .scheme }
  | .string =>
    { candidates := [.scheme .stringQuotedEnd, .scheme .stringQuoteEscape]
      unclaimed := .fill (.scheme .string) }
  | .blockComment =>
    { candidates := [.scheme .blockCommentEnd], unclaimed := .fill (.scheme .comment) }
  | .lilyPond =>
    { candidates := .scheme .lilyPondEnd :: Lily.musicKinds, mode := some .lilypond }

def Kind.action? : Kind → Option Action
  | .stringQuotedStart => some (.enter (.scheme .string))
  | .stringQuotedEnd | .closeParen | .lilyPondEnd => some .leaveThenArgument
  | .blockCommentStart => some (.enter (.scheme .blockComment))
  | .blockCommentEnd => some .leave
  | .openParen | .vectorStart => some (.enter (.scheme .expression))
  | .lilyPondStart => some (.enter (.scheme .lilyPond))
  | k => if k.capabilities.contains .item then some .argument else none

end ScoreText.Scheme
