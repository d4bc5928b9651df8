import ScoreText.Lexer.Site
import ScoreText.Lily.Rules
import ScoreText.Pattern
/-!
How HTML with embedded music is read. One element holds a whole file, another holds music after a
colon, and a third names a file.
-/
namespace ScoreText.Html

open Pattern

def entity : Pattern :=
  sequence [char '&',
    oneOf [seq (char '#') digits,
      sequence [char '#', among "xX", oneOrMore fun c =>
        c.isDigit || ('a' ≤ c && c ≤ 'f') || ('A' ≤ c && c ≤ 'F')],
      seq (one fun c => c.isAlpha || c == '_' || c == ':')
        (run fun c => Text.isWord c || c == '.' || c == ':' || c == '-')],
    char ';']

def Kind.pattern : Kind → Pattern
  | .comment | .string => never
  | .commentStart => text "<!--"
  | .commentEnd => text "-->"
  | .stringDQStart | .stringDQEnd => char '"'
  | .stringSQStart | .stringSQEnd => char '\''
  | .tagStart =>
    sequence [char '<', opt (char '/'), one Text.isWord,
      run fun c => c == '-' || c == ':' || Text.isWord c]
  | .tagEnd | .lilyPondFileTagEnd | .lilyPondInlineTagEnd => seq (opt (char '/')) (char '>')
  | .attrName => seq (oneOrMore Text.isWord) (opt (seq (among "-_:") (oneOrMore Text.isWord)))
  | .equalSign => char '='
  | .value => oneOrMore Text.isWord
  | .entityRef => entity
  | .lilyPondVersionTag => sequence [text "<lilypondversion", opt (char '/'), char '>']
  | .lilyPondFileTag => sequence [char '<', opt (char '/'), text "lilypondfile"]
  | .lilyPondInlineTag => text "<lilypond"
  | .lilyPondCloseTag => text "</lilypond>"
  | .lilyPondTagEnd => char '>'
  | .semiColon => char ':'

/-- How many characters of a match are a token of the kind. The name of a tag ends on an ASCII
word character. -/
def Kind.keep? (k : Kind) (s : Site) : Option Nat :=
  match k with
  | .tagStart =>
    let name := s.lexeme.reverse.dropWhile fun c => !Text.isAsciiWord c
    if name.isEmpty then none else some name.length
  | .lilyPondFileTag | .lilyPondInlineTag => s.wholeIf s.boundaryAfter
  | _ => s.wholeIf true

private def html (ks : List Kind) : List TokenKind :=
  ks.map .html

def Region.rule : Region → Rule
  | .document =>
    { candidates := .space :: html
        [.lilyPondVersionTag, .lilyPondFileTag, .lilyPondInlineTag, .commentStart, .tagStart,
         .entityRef]
      mode := some .html }
  | .attr =>
    { candidates := .space :: html
        [.tagEnd, .attrName, .equalSign, .stringDQStart, .stringSQStart] }
  | .stringDQ =>
    { candidates := html [.stringDQEnd, .entityRef], unclaimed := .fill (.html .string) }
  | .stringSQ =>
    { candidates := html [.stringSQEnd, .entityRef], unclaimed := .fill (.html .string) }
  | .comment => { candidates := html [.commentEnd], unclaimed := .fill (.html .comment) }
  | .value => { candidates := .space :: html [.value], unclaimed := .leave }
  | .lilyPondAttr =>
    { candidates := .space :: html
        [.attrName, .equalSign, .stringDQStart, .stringSQStart, .lilyPondTagEnd, .semiColon] }
  | .lilyPondFileOptions =>
    { candidates := .space :: html
        [.attrName, .equalSign, .stringDQStart, .stringSQStart, .lilyPondFileTagEnd] }
  | .lilyPond =>
    { candidates := .html .lilyPondCloseTag :: Lily.globalKinds, mode := some .lilypond }
  | .lilyPondInline =>
    { candidates := .html .lilyPondInlineTagEnd :: Lily.musicKinds, mode := some .lilypond }

def Kind.action? : Kind → Option Action
  | .commentStart => some (.enter (.html .comment))
  | .tagStart => some (.enter (.html .attr))
  | .equalSign => some (.enter (.html .value))
  | .stringDQStart => some (.enter (.html .stringDQ))
  | .stringSQStart => some (.enter (.html .stringSQ))
  | .lilyPondFileTag => some (.enter (.html .lilyPondFileOptions))
  | .lilyPondInlineTag => some (.enter (.html .lilyPondAttr))
  | .lilyPondTagEnd => some (.replace (.html .lilyPond))
  | .semiColon => some (.replace (.html .lilyPondInline))
  | k => if k.capabilities.contains .leaver then some .leave else none

end ScoreText.Html
