import ScoreText.Lily.Lexeme
import ScoreText.Lily.Rules
import ScoreText.Lily.Actions
import ScoreText.Scheme.Rules
import ScoreText.Html.Rules
import ScoreText.Latex.Rules
import ScoreText.Texinfo.Rules
import ScoreText.DocBook.Rules
/-!
The rules of all dialects together.
-/
namespace ScoreText

namespace TokenKind

/-- The pattern of a kind. Filler and error tokens have none. -/
def pattern : TokenKind → Pattern
  | unparsed | error => .never
  | space => .oneOrMore Text.isBlank
  | lily k => k.pattern
  | scheme k => k.pattern
  | html k => k.pattern
  | latex k => k.pattern
  | texinfo k => k.pattern
  | docBook k => k.pattern

/-- How many characters of a match are a token of the kind. -/
def keep? (k : TokenKind) (s : Site) : Option Nat :=
  match k with
  | unparsed | space | error => s.wholeIf true
  | lily k => k.keep? s
  | scheme k => k.keep? s
  | html k => k.keep? s
  | latex k => k.keep? s
  | texinfo k => k.keep? s
  | docBook k => k.keep? s

/-- The action of a kind, where the kind alone decides it. -/
def action? (k : TokenKind) (text : List Char) : Option Action :=
  match k with
  | unparsed | space | error => none
  | lily k => k.action? text
  | scheme k => k.action?
  | html k => k.action?
  | latex k => k.action?
  | texinfo k => k.action?
  | docBook k => k.action?

end TokenKind

namespace Region

/-- How a region reads its text. -/
def rule : Region → Rule
  | lily r => r.rule
  | scheme r => r.rule
  | html r => r.rule
  | latex r => r.rule
  | texinfo r => r.rule
  | docBook r => r.rule

/-- Whether the region ends or changes where none of its candidates occurs. -/
def yields (r : Region) : Bool :=
  r.rule.yields

/-- What a region makes of a token whose kind has no action of its own. -/
def react (r : Region) (arguments : Nat) (k : TokenKind) (text : List Char) : Action :=
  match r with
  | lily r => r.react arguments k text
  | latex r => r.react k
  | docBook r => r.react k
  | scheme _ | html _ | texinfo _ => .stay

end Region

end ScoreText
