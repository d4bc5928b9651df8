import ScoreText.Lily.Kind
import ScoreText.Scheme.Kind
import ScoreText.Html.Kind
import ScoreText.Latex.Kind
import ScoreText.Texinfo.Kind
import ScoreText.DocBook.Kind
/-!
The token kinds of all dialects.
-/
namespace ScoreText

/-- What a piece of text is. -/
inductive TokenKind where
  /-- text that no kind of its region claims -/
  | unparsed
  | space
  | error
  | lily (k : Lily.Kind)
  | scheme (k : Scheme.Kind)
  | html (k : Html.Kind)
  | latex (k : Latex.Kind)
  | texinfo (k : Texinfo.Kind)
  | docBook (k : DocBook.Kind)
  deriving DecidableEq, Repr

namespace TokenKind

def label : TokenKind → String
  | unparsed => "Unparsed"
  | space => "Space"
  | error => "Error"
  | lily k => "ly." ++ k.label
  | scheme k => "scm." ++ k.label
  | html k => "html." ++ k.label
  | latex k => "latex." ++ k.label
  | texinfo k => "texi." ++ k.label
  | docBook k => "docbook." ++ k.label

def shared : List TokenKind :=
  [unparsed, space, error]

/-- The kinds of a dialect by its short name; the kinds of no dialect are called generic. -/
def ofDialect : String → List TokenKind
  | "generic" => shared
  | "ly" => Lily.Kind.all.map lily
  | "scm" => Scheme.Kind.all.map scheme
  | "html" => Html.Kind.all.map html
  | "latex" => Latex.Kind.all.map latex
  | "texi" => Texinfo.Kind.all.map texinfo
  | "docbook" => DocBook.Kind.all.map docBook
  | _ => []

def all : List TokenKind :=
  ["generic", "ly", "scm", "html", "latex", "texi", "docbook"].flatMap ofDialect

def ofLabel? (s : String) : Option TokenKind :=
  all.find? (·.label == s)

def capabilities : TokenKind → List Capability
  | unparsed | space | error => []
  | lily k => k.capabilities
  | scheme k => k.capabilities
  | html k => k.capabilities
  | latex k => k.capabilities
  | texinfo k => k.capabilities
  | docBook k => k.capabilities

def categories : TokenKind → List Category
  | unparsed => []
  | space => [.space]
  | error => [.error]
  | lily k => k.categories
  | scheme k => k.categories
  | html k => k.categories
  | latex k => k.categories
  | texinfo k => k.categories
  | docBook k => k.categories

def pair? : TokenKind → Option String
  | lily k => k.pair?
  | scheme k => k.pair?
  | _ => none

def isSpace (k : TokenKind) : Bool :=
  k.categories.contains .space

def isComment (k : TokenKind) : Bool :=
  k.categories.contains .comment

def classes (k : TokenKind) : List String :=
  let own : List (String × Bool) := match k with
    | lily k =>
      [("keyword", k.isKeyword), ("command", k.isCommand), ("duration", k.isDuration),
       ("markup_start", k.isMarkupStart), ("lyric", k.isLyric), ("slur", k.isSlur),
       ("beam", k.isBeam), ("chord_item", k.isChordItem), ("articulation", k.isArticulation)]
    | scheme k => [("atom", k.isAtom)]
    | _ => []
  ((("space", k.isSpace) :: ("comment", k.isComment) :: own).filter (·.2)).map (·.1)

end TokenKind

end ScoreText
