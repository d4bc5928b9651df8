import ScoreText.Lexer.Site
import ScoreText.Lily.Rules
import ScoreText.Pattern
/-!
How LaTeX with embedded music is read. An environment holds a whole file, a command holds music in
braces, and another command names a file.
-/
namespace ScoreText.Latex

open Pattern

private def environment (edge : String) (name : Pattern) : Pattern :=
  sequence [text edge, run Text.isBlank, text "\x7b", name, text "\x7d"]

private def verbatimName : Pattern :=
  seq (text "verbatim") (opt (char '*'))

def Kind.pattern : Kind → Pattern
  | .comment | .verbatim | .option | .lilyPondFileName => never
  | .lineComment => seq (char '%') line
  | .commentEnvStart => environment "\\begin" (text "comment")
  | .commentEnvEnd => environment "\\end" (text "comment")
  | .verbatimStart => environment "\\begin" verbatimName
  | .verbatimEnd => environment "\\end" verbatimName
  | .command => sequence [char '\\', oneOrMore Char.isAlpha, opt (char '*')]
  | .escapedChar => seq (char '\\') (one fun c => !c.isAlpha)
  | .openBrace => text "\x7b"
  | .closeBrace | .lilyPondInlineEnd | .lilyPondFileEnd => text "\x7d"
  | .math => seq (char '$') (opt (char '$'))
  | .optionsStart => text "["
  | .optionsEnd => text "]"
  | .lilyPondEnvStart => environment "\\begin" (text "lilypond")
  | .lilyPondEnvEnd => environment "\\end" (text "lilypond")
  | .lilyPondInline => text "\\lilypond"
  | .lilyPondFile => text "\\lilypondfile"
  | .lilyPondVersion => text "\\lilypondversion"
  | .lilyPondInlineStart | .lilyPondFileStart => text "\x7b"

def Kind.keep? (k : Kind) (s : Site) : Option Nat :=
  match k with
  | .lilyPondInline | .lilyPondFile | .lilyPondVersion => s.wholeIf s.noLetterAfter
  | _ => s.wholeIf true

private def latex (ks : List Kind) : List TokenKind :=
  ks.map .latex

def textKinds : List TokenKind :=
  latex [.lineComment, .commentEnvStart, .verbatimStart, .lilyPondEnvStart, .lilyPondVersion,
    .lilyPondFile, .lilyPondInline, .command, .escapedChar, .openBrace, .closeBrace, .math]

def Region.rule : Region → Rule
  | .document => { candidates := textKinds, mode := some .latex }
  | .group => { candidates := textKinds }
  | .comment => { candidates := latex [.commentEnvEnd], unclaimed := .fill (.latex .comment) }
  | .verbatim => { candidates := latex [.verbatimEnd], unclaimed := .fill (.latex .verbatim) }
  | .options => { candidates := latex [.optionsEnd], unclaimed := .fill (.latex .option) }
  | .lilyPondEnvOptions =>
    { candidates := latex [.optionsStart], unclaimed := .replace (.latex .lilyPondEnv) }
  | .lilyPondEnv =>
    { candidates := .latex .lilyPondEnvEnd :: Lily.globalKinds, mode := some .lilypond }
  | .lilyPondInlineOptions => { candidates := latex [.optionsStart, .lilyPondInlineStart] }
  | .lilyPondInline =>
    { candidates := .latex .lilyPondInlineEnd :: Lily.musicKinds, mode := some .lilypond }
  | .lilyPondFileOptions => { candidates := latex [.optionsStart, .lilyPondFileStart] }
  | .lilyPondFile =>
    { candidates := latex [.lilyPondFileEnd], unclaimed := .fill (.latex .lilyPondFileName) }

def Kind.action? : Kind → Option Action
  | .commentEnvStart => some (.enter (.latex .comment))
  | .verbatimStart => some (.enter (.latex .verbatim))
  | .optionsStart => some (.enter (.latex .options))
  | .lilyPondEnvStart => some (.enter (.latex .lilyPondEnvOptions))
  | .lilyPondInline => some (.enter (.latex .lilyPondInlineOptions))
  | .lilyPondInlineStart => some (.replace (.latex .lilyPondInline))
  | .lilyPondFile => some (.enter (.latex .lilyPondFileOptions))
  | .lilyPondFileStart => some (.replace (.latex .lilyPondFile))
  | k => if k.capabilities.contains .leaver then some .leave else none

/-- What a region makes of a brace. Braces group running text, and a closing brace that no group
waits for changes nothing. -/
def Region.react (r : Region) (k : TokenKind) : Action :=
  match r, k with
  | .document, .latex .openBrace | .group, .latex .openBrace => .enter (.latex .group)
  | .group, .latex .closeBrace => .leave
  | _, _ => .stay

end ScoreText.Latex
