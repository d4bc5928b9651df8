import ScoreText.Token.Region
import ScoreText.Text.Blank
import ScoreText.Text.Search
/-!
The dialects as ways to read a file: their names, file extensions and root regions, and which one
an unnamed text is likely to be in.
-/
namespace ScoreText

inductive Mode where
  | lilypond | scheme | html | latex | texinfo | docBook
  deriving DecidableEq, Repr

structure UnknownMode where
  name : String

def UnknownMode.message (e : UnknownMode) : String :=
  "unknown mode `" ++ e.name ++ "`"

namespace Mode

def all : List Mode :=
  [lilypond, scheme, html, latex, texinfo, docBook]

def name : Mode → String
  | lilypond => "lilypond"
  | scheme => "scheme"
  | html => "html"
  | latex => "latex"
  | texinfo => "texinfo"
  | docBook => "docbook"

def extension : Mode → String
  | lilypond => ".ly"
  | scheme => ".scm"
  | html => ".html"
  | latex => ".lytex"
  | texinfo => ".texi"
  | docBook => ".docbook"

/-- The region in which a text of the mode starts. -/
def root : Mode → Region
  | lilypond => .lily .global
  | scheme => .scheme .expression
  | html => .html .document
  | latex => .latex .document
  | texinfo => .texinfo .document
  | docBook => .docBook .document

def ofName (name : String) : Except UnknownMode Mode :=
  match all.find? (·.name == name) with
  | some m => .ok m
  | none => .error ⟨name⟩

/-- The mode of a file extension, in any case and with or without dots in front. -/
def ofExtension? (extension : String) : Option Mode :=
  let bare := (extension.toList.dropWhile (· == '.')).map Char.toLower
  let is (names : List String) := names.any fun n => n.toList == bare
  if is ["ly", "ily", "lyi"] then some lilypond
  else if is ["scm"] then some scheme
  else if is ["html", "htm"] then some html
  else if is ["lytex", "tex", "latex"] then some latex
  else if is ["texi", "texinfo", "itexi", "tely"] then some texinfo
  else if is ["docbook", "lyxml"] then some docBook
  else none

/-- The mode that a text is most likely written in; the first hint that applies decides. -/
def guess (text : String) : Mode :=
  let cs := Text.trimLeft text.toList
  let starts (s : String) := s.toList.isPrefixOf cs
  let has (s : String) := Text.occurs s.toList cs
  if starts "%" || starts "\\" then
    if has "\\version" || has "\\relative" || has "\\score" then lilypond
    else if has "\\documentclass" || has "\\begin\x7bdocument\x7d" then latex
    else lilypond
  else if starts "<<" then lilypond
  else if starts "<" then
    if has "DOCTYPE book" || has "<programlisting" then docBook else html
  else if starts "#!" || starts ";" || starts "(" then scheme
  else if starts "@" then texinfo
  else lilypond

end Mode

end ScoreText
