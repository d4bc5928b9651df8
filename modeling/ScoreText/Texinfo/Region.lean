/-!
The regions of Texinfo input: places in which a fixed set of token kinds may occur.
-/
namespace ScoreText.Texinfo

inductive Region where
  | document | comment | block | verbatim
  | lilyPondBlockAttr | lilyPondEnvAttr | lilyPondAttr | lilyPondFile
  | lilyPondBlock | lilyPondEnv
  deriving DecidableEq, Repr

def Region.label : Region → String
  | .document => "ParseTexinfo"
  | .comment => "ParseComment"
  | .block => "ParseBlock"
  | .verbatim => "ParseVerbatim"
  | .lilyPondBlockAttr => "ParseLilyPondBlockAttr"
  | .lilyPondEnvAttr => "ParseLilyPondEnvAttr"
  | .lilyPondAttr => "ParseLilyPondAttr"
  | .lilyPondFile => "ParseLilyPondFile"
  | .lilyPondBlock => "ParseLilyPondBlock"
  | .lilyPondEnv => "ParseLilyPondEnv"

def Region.all : List Region :=
  [.document, .comment, .block, .verbatim, .lilyPondBlockAttr, .lilyPondEnvAttr, .lilyPondAttr,
   .lilyPondFile, .lilyPondBlock, .lilyPondEnv]

end ScoreText.Texinfo
