import ScoreText.Lexer.Site
import ScoreText.Lily.Rules
import ScoreText.Pattern
/-!
How Texinfo with embedded music is read.
-/
namespace ScoreText.Texinfo

open Pattern

private def ending (name : String) : Pattern :=
  sequence [text "@end", oneOrMore Text.isBlank, text name]

/-- A brace, with options in brackets before it if any. -/
def bracedArgument : Pattern :=
  seq
    (opt (sequence [char '[',
      oneOrMore fun c => c.isAlphanum || ",=\\".toList.contains c || Text.isBlank c, char ']']))
    (text "\x7b")

def Kind.pattern : Kind → Pattern
  | .comment | .attributeText | .verbatim => never
  | .lineComment => seq (text "@c") (opt (seq (one fun c => !(Text.isWord c || c == '\n')) line))
  | .blockCommentStart => text "@ignore"
  | .blockCommentEnd => ending "ignore"
  | .keyword => seq (char '@') (oneOrMore Char.isAlpha)
  | .blockStart => sequence [char '@', oneOrMore Char.isAlpha, text "\x7b"]
  | .blockEnd | .lilyPondBlockEnd => text "\x7d"
  | .escapeChar => seq (char '@') (among "@\x7b\x7d")
  | .accent =>
    sequence [char '@', among "'\",=^`~", alt (sequence [text "\x7b", letter, text "\x7d"]) letter]
  | .verbatimStart => text "@verbatim"
  | .verbatimEnd => ending "verbatim"
  | .lilyPondBlockStart | .lilyPondEnvStart => text "@lilypond"
  | .lilyPondEnvEnd => ending "lilypond"
  | .lilyPondFileStart => text "@lilypondfile"
  | .lilyPondBlockStartBrace | .lilyPondFileStartBrace => text "\x7b"
  | .lilyPondAttrStart => text "["
  | .lilyPondAttrEnd => text "]"

def Kind.keep? (k : Kind) (s : Site) : Option Nat :=
  match k with
  | .lineComment => s.wholeIf (!Site.holds Text.isAsciiWord (s.next? 2))
  | .accent => s.wholeIf (s.lexeme.getLast? == some '\x7d' || s.boundaryAfter)
  | .blockCommentStart | .blockCommentEnd | .verbatimStart | .verbatimEnd | .lilyPondEnvStart
  | .lilyPondEnvEnd | .lilyPondFileStart => s.wholeIf s.boundaryAfter
  | .lilyPondBlockStart => s.wholeIf (bracedArgument.fits s.after)
  | _ => s.wholeIf true

private def texinfo (ks : List Kind) : List TokenKind :=
  ks.map .texinfo

def Region.rule : Region → Rule
  | .document =>
    { candidates := texinfo
        [.lineComment, .blockCommentStart, .accent, .escapeChar, .lilyPondBlockStart,
         .lilyPondEnvStart, .lilyPondFileStart, .blockStart, .verbatimStart, .keyword]
      mode := some .texinfo }
  | .comment => { candidates := texinfo [.blockCommentEnd], unclaimed := .fill (.texinfo .comment) }
  | .block =>
    { candidates := texinfo [.blockEnd, .accent, .escapeChar, .blockStart, .keyword] }
  | .verbatim => { candidates := texinfo [.verbatimEnd], unclaimed := .fill (.texinfo .verbatim) }
  | .lilyPondBlockAttr => { candidates := texinfo [.lilyPondAttrStart, .lilyPondBlockStartBrace] }
  | .lilyPondEnvAttr =>
    { candidates := texinfo [.lilyPondAttrStart], unclaimed := .replace (.texinfo .lilyPondEnv) }
  | .lilyPondAttr =>
    { candidates := texinfo [.lilyPondAttrEnd], unclaimed := .fill (.texinfo .attributeText) }
  | .lilyPondFile => { candidates := texinfo [.lilyPondAttrStart, .lilyPondFileStartBrace] }
  | .lilyPondBlock =>
    { candidates := .texinfo .lilyPondBlockEnd :: Lily.globalKinds, mode := some .lilypond }
  | .lilyPondEnv =>
    { candidates := .texinfo .lilyPondEnvEnd :: Lily.globalKinds, mode := some .lilypond }

def Kind.action? : Kind → Option Action
  | .blockCommentStart => some (.enter (.texinfo .comment))
  | .blockStart => some (.enter (.texinfo .block))
  | .verbatimStart => some (.enter (.texinfo .verbatim))
  | .lilyPondBlockStart => some (.enter (.texinfo .lilyPondBlockAttr))
  | .lilyPondBlockStartBrace => some (.replace (.texinfo .lilyPondBlock))
  | .lilyPondEnvStart => some (.enter (.texinfo .lilyPondEnvAttr))
  | .lilyPondFileStart => some (.enter (.texinfo .lilyPondFile))
  | .lilyPondFileStartBrace => some (.replace (.texinfo .block))
  | .lilyPondAttrStart => some (.enter (.texinfo .lilyPondAttr))
  | k => if k.capabilities.contains .leaver then some .leave else none

end ScoreText.Texinfo
