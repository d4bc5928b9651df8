import ScoreText.Token.Trait
/-!
The token kinds of LaTeX and what can be said of a kind alone.
-/
namespace ScoreText.Latex

inductive Kind where
  | comment | lineComment | commentEnvStart | commentEnvEnd
  | verbatim | verbatimStart | verbatimEnd
  | command | escapedChar | openBrace | closeBrace | math
  | option | optionsStart | optionsEnd
  | lilyPondEnvStart | lilyPondEnvEnd
  | lilyPondInline | lilyPondInlineStart | lilyPondInlineEnd
  | lilyPondFile | lilyPondFileStart | lilyPondFileName | lilyPondFileEnd
  | lilyPondVersion
  deriving DecidableEq, Repr

def Kind.label : Kind → String
  | .comment => "Comment"
  | .lineComment => "LineComment"
  | .commentEnvStart => "CommentEnvStart"
  | .commentEnvEnd => "CommentEnvEnd"
  | .verbatim => "Verbatim"
  | .verbatimStart => "VerbatimStart"
  | .verbatimEnd => "VerbatimEnd"
  | .command => "Command"
  | .escapedChar => "EscapedChar"
  | .openBrace => "OpenBrace"
  | .closeBrace => "CloseBrace"
  | .math => "Math"
  | .option => "Option"
  | .optionsStart => "OptionsStart"
  | .optionsEnd => "OptionsEnd"
  | .lilyPondEnvStart => "LilyPondEnvStart"
  | .lilyPondEnvEnd => "LilyPondEnvEnd"
  | .lilyPondInline => "LilyPondInline"
  | .lilyPondInlineStart => "LilyPondInlineStart"
  | .lilyPondInlineEnd => "LilyPondInlineEnd"
  | .lilyPondFile => "LilyPondFile"
  | .lilyPondFileStart => "LilyPondFileStart"
  | .lilyPondFileName => "LilyPondFileName"
  | .lilyPondFileEnd => "LilyPondFileEnd"
  | .lilyPondVersion => "LilyPondVersion"

def Kind.all : List Kind :=
  [.comment, .lineComment, .commentEnvStart, .commentEnvEnd, .verbatim, .verbatimStart,
   .verbatimEnd, .command, .escapedChar, .openBrace, .closeBrace, .math, .option, .optionsStart,
   .optionsEnd, .lilyPondEnvStart, .lilyPondEnvEnd, .lilyPondInline, .lilyPondInlineStart,
   .lilyPondInlineEnd, .lilyPondFile, .lilyPondFileStart, .lilyPondFileName, .lilyPondFileEnd,
   .lilyPondVersion]

namespace Kind

def capabilities : Kind → List Capability
  | .commentEnvEnd | .verbatimEnd | .optionsEnd | .lilyPondEnvEnd | .lilyPondInlineEnd
  | .lilyPondFileEnd => [.leaver]
  | _ => []

def categories : Kind → List Category
  | .comment | .lineComment | .commentEnvStart | .commentEnvEnd => [.comment]
  | .escapedChar => [.character]
  | .lilyPondFileName => [.string]
  | _ => []

end Kind

end ScoreText.Latex
