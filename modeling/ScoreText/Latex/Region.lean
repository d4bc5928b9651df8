/-!
The regions of LaTeX input: places in which a fixed set of token kinds may occur.
-/
namespace ScoreText.Latex

inductive Region where
  | document | group | comment | verbatim | options
  | lilyPondEnvOptions | lilyPondEnv
  | lilyPondInlineOptions | lilyPondInline
  | lilyPondFileOptions | lilyPondFile
  deriving DecidableEq, Repr

def Region.label : Region → String
  | .document => "ParseLatex"
  | .group => "ParseGroup"
  | .comment => "ParseComment"
  | .verbatim => "ParseVerbatim"
  | .options => "ParseOptions"
  | .lilyPondEnvOptions => "ParseLilyPondEnvOptions"
  | .lilyPondEnv => "ParseLilyPondEnv"
  | .lilyPondInlineOptions => "ParseLilyPondInlineOptions"
  | .lilyPondInline => "ParseLilyPondInline"
  | .lilyPondFileOptions => "ParseLilyPondFileOptions"
  | .lilyPondFile => "ParseLilyPondFile"

def Region.all : List Region :=
  [.document, .group, .comment, .verbatim, .options, .lilyPondEnvOptions, .lilyPondEnv,
   .lilyPondInlineOptions, .lilyPondInline, .lilyPondFileOptions, .lilyPondFile]

end ScoreText.Latex
