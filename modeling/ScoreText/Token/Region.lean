import ScoreText.Lily.Region
import ScoreText.Scheme.Region
import ScoreText.Html.Region
import ScoreText.Latex.Region
import ScoreText.Texinfo.Region
import ScoreText.DocBook.Region
/-!
The regions of all dialects.
-/
namespace ScoreText

/-- A place in the text in which a fixed set of token kinds may occur. -/
inductive Region where
  | lily (r : Lily.Region)
  | scheme (r : Scheme.Region)
  | html (r : Html.Region)
  | latex (r : Latex.Region)
  | texinfo (r : Texinfo.Region)
  | docBook (r : DocBook.Region)
  deriving DecidableEq, Repr

namespace Region

def label : Region → String
  | lily r => "ly." ++ r.label
  | scheme r => "scm." ++ r.label
  | html r => "html." ++ r.label
  | latex r => "latex." ++ r.label
  | texinfo r => "texi." ++ r.label
  | docBook r => "docbook." ++ r.label

def all : List Region :=
  Lily.Region.all.map lily ++ Scheme.Region.all.map scheme ++ Html.Region.all.map html ++
    Latex.Region.all.map latex ++ Texinfo.Region.all.map texinfo ++ DocBook.Region.all.map docBook

def ofLabel? (s : String) : Option Region :=
  all.find? (·.label == s)

end Region

end ScoreText
