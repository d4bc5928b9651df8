import ScoreText.Html.Rules
/-!
How DocBook XML is read. A program listing that declares its language as LilyPond holds a whole
file, plain or in a character data section.
-/
namespace ScoreText.DocBook

open Pattern

private def isNameStart (c : Char) : Bool :=
  c.isAlpha || c == '_'

private def isNameChar (c : Char) : Bool :=
  c == '-' || c == '.' || c == ':' || Text.isWord c

/-- The declaration of the language within a tag, up to the end of the tag. -/
def languageDeclaration : Pattern :=
  sequence [text "language", run Text.isBlank, char '=', run Text.isBlank, among "\"'",
    text "lilypond", among "\"'", run (· != '>'), char '>']

/-- Whether the rest of a tag declares the language as LilyPond. The declaration starts a word. -/
def declaresLilyPond (before : Option Char) : List Char → Bool
  | [] => false
  | c :: cs =>
    (!Site.holds Text.isWord before && languageDeclaration.fits (c :: cs)) ||
      (c != '>' && declaresLilyPond (some c) cs)

def Kind.pattern : Kind → Pattern
  | .comment | .declaration | .cdata | .string => never
  | .commentStart => text "<!--"
  | .commentEnd => text "-->"
  | .declarationStart => seq (text "<!") (oneOrMore Char.isUpper)
  | .declarationEnd | .tagEnd => seq (opt (char '/')) (char '>')
  | .processingInstruction => sequence [text "<?", run (· != '?'), text "?>"]
  | .cdataStart => text "<![CDATA["
  | .cdataEnd => text "]]>"
  | .stringDQStart | .stringDQEnd => char '"'
  | .stringSQStart | .stringSQEnd => char '\''
  | .tagStart => sequence [char '<', opt (char '/'), one isNameStart, run isNameChar]
  | .attrName => seq (one isNameStart) (run isNameChar)
  | .equalSign => char '='
  | .entityRef => Html.entity
  | .listingStart => text "<programlisting"
  | .listingTagEnd => char '>'
  | .listingEnd => text "</programlisting>"

def Kind.keep? (k : Kind) (s : Site) : Option Nat :=
  match k with
  | .listingStart => s.wholeIf (s.boundaryAfter && declaresLilyPond none s.after)
  | _ => s.wholeIf true

private def docBook (ks : List Kind) : List TokenKind :=
  ks.map .docBook

private def attributes (closing : Kind) : List TokenKind :=
  .space :: docBook [closing, .attrName, .equalSign, .stringDQStart, .stringSQStart]

def Region.rule : Region → Rule
  | .document =>
    { candidates := docBook
        [.commentStart, .cdataStart, .declarationStart, .processingInstruction, .listingStart,
         .tagStart, .entityRef]
      mode := some .docBook }
  | .comment => { candidates := docBook [.commentEnd], unclaimed := .fill (.docBook .comment) }
  | .declaration =>
    { candidates := docBook [.declarationEnd, .stringDQStart, .stringSQStart]
      unclaimed := .fill (.docBook .declaration) }
  | .cdata => { candidates := docBook [.cdataEnd], unclaimed := .fill (.docBook .cdata) }
  | .stringDQ =>
    { candidates := docBook [.stringDQEnd, .entityRef], unclaimed := .fill (.docBook .string) }
  | .stringSQ =>
    { candidates := docBook [.stringSQEnd, .entityRef], unclaimed := .fill (.docBook .string) }
  | .attr => { candidates := attributes .tagEnd }
  | .listingAttr => { candidates := attributes .listingTagEnd }
  | .lilyPond =>
    { candidates := docBook [.listingEnd, .cdataStart, .cdataEnd] ++ Lily.globalKinds
      mode := some .lilypond }

def Kind.action? : Kind → Option Action
  | .commentStart => some (.enter (.docBook .comment))
  | .declarationStart => some (.enter (.docBook .declaration))
  | .stringDQStart => some (.enter (.docBook .stringDQ))
  | .stringSQStart => some (.enter (.docBook .stringSQ))
  | .tagStart => some (.enter (.docBook .attr))
  | .listingStart => some (.enter (.docBook .listingAttr))
  | .listingTagEnd => some (.replace (.docBook .lilyPond))
  | k => if k.capabilities.contains .leaver then some .leave else none

/-- What a region makes of the ends of a character data section. They open and close a region in
running text and change nothing within a listing. -/
def Region.react (r : Region) (k : TokenKind) : Action :=
  match r, k with
  | .document, .docBook .cdataStart => .enter (.docBook .cdata)
  | .cdata, .docBook .cdataEnd => .leave
  | _, _ => .stay

end ScoreText.DocBook
