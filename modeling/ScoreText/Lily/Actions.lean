import ScoreText.Lexer.Rule
import ScoreText.Lily.Words
import ScoreText.Text.Lowercase
/-!
What tokens of LilyPond input do to the open regions. Most kinds have an action of their own; the
others leave it to the region that they stand in.
-/
namespace ScoreText.Lily

/-- The name behind the sign that a command begins with, which takes one byte. -/
def commandName (text : List Char) : String :=
  match text with
  | sign :: name => if sign.utf8Size == 1 then String.ofList name else ""
  | [] => ""

def Kind.action? (k : Kind) (text : List Char) : Option Action :=
  match k with
  | .blockCommentStart => some (.enter (.lily .blockComment))
  | .blockCommentEnd => some .leave
  | .stringQuotedStart => some (.enter (.lily .string))
  | .stringQuotedEnd => some .leaveThenArgument
  | .length => some (.enter (.lily .duration))
  | .sequentialStart | .simultaneousStart => some (.enter (.lily .music))
  | .closeBracket | .sequentialEnd | .closeSimultaneous
  | .simultaneousEnd => some .leaveThenArgument
  | .chordStart => some (.enter (.lily .chord))
  | .chordEnd | .scriptAbbreviation | .fingering | .tremoloDuration => some .leave
  | .repeatCount | .clefSpecifier | .equalSignSetOverride => some .leave
  | .direction => some (.enter (.lily .scriptAbbreviationOrFingering))
  | .tremoloColon => some (.enter (.lily .tremolo))
  | .score | .markupScore => some (.enter (.lily .expectScore))
  | .book => some (.enter (.lily .expectBook))
  | .bookPart => some (.enter (.lily .expectBookPart))
  | .paper => some (.enter (.lily .expectPaper))
  | .header => some (.enter (.lily .expectHeader))
  | .layout => some (.enter (.lily .expectLayout))
  | .midi => some (.enter (.lily .expectMidi))
  | .withBlock => some (.enter (.lily .expectWith))
  | .layoutContext => some (.enter (.lily .expectContext))
  | .markup | .markupLines | .markupList => some (.enterAwaiting (.lily .markup) 1)
  | .openBracketMarkup => some (.enterAwaiting (.lily .markup) 0)
  | .closeBracketMarkup => some .closeMarkup
  | .markupCommand =>
    match Words.markupArguments? (commandName text) with
    | some 0 => some .argument
    | some n => some (.enterAwaiting (.lily .markup) n)
    | none => some (.enterAwaiting (.lily .markup) 1)
  | .pitchCommand =>
    some (.enterAwaiting (.lily .pitchCommand) (if text == "\\transpose".toList then 2 else 1))
  | .repeatCommand => some (.enter (.lily .repeatCommand))
  | .override => some (.enter (.lily .override))
  | .set => some (.enter (.lily .set))
  | .revert => some (.enter (.lily .revert))
  | .unset => some (.enter (.lily .unset))
  | .tweak => some (.enter (.lily .tweak))
  | .new | .context | .change => some (.enter (.lily .translator))
  | .clef => some (.enter (.lily .clef))
  | .tempo => some (.enter (.lily .tempo))
  | .lyricMode => some (.enter (.lily .expectLyricMode))
  | .noteMode => some (.enter (.lily .expectNoteMode))
  | .chordMode => some (.enter (.lily .expectChordMode))
  | .drumMode => some (.enter (.lily .expectDrumMode))
  | .figureMode => some (.enter (.lily .expectFigureMode))
  | .schemeStart => some (.enterAwaiting (.scheme .expression) 1)
  | .markupUserCommand => some .argument
  | k => if k.capabilities.contains .item then some .argument else none

/-- The region that takes the place of an expecting region at its opening bracket. -/
def Region.opened? : Region → Option Region
  | .expectScore => some .score
  | .expectBook => some .book
  | .expectBookPart => some .bookPart
  | .expectPaper => some .paper
  | .expectHeader => some .header
  | .expectLayout => some .layout
  | .expectMidi => some .midi
  | .expectWith => some .withBlock
  | .expectContext => some .context
  | .expectLyricMode => some .lyricMode
  | .expectChordMode => some .chordMode
  | .expectNoteMode => some .noteMode
  | .expectDrumMode => some .drumMode
  | .expectFigureMode => some .figureMode
  | _ => none

/-- What a region makes of a token whose kind has no action of its own. -/
def Region.react (r : Region) (arguments : Nat) (k : TokenKind) (text : List Char) : Action :=
  let opens := k == .lily .openBracket || k == .lily .openSimultaneous
  let openIf (condition : Bool) : Action :=
    match r.opened? with
    | some next => if condition then .replace (.lily next) else .stay
    | none => .stay
  match r with
  | .expectLyricMode | .expectChordMode | .expectNoteMode | .expectDrumMode | .expectFigureMode =>
    openIf opens
  | .lyricMode | .drumMode | .figureMode => if opens then .enter (.lily r) else .stay
  | .chordMode =>
    if opens then .enter (.lily r)
    else if k == .lily .chordSeparator then .enter (.lily .chordItems)
    else .stay
  | .unset =>
    if k == .lily .contextProperty || (match text.head? with
      | some c => Text.isLowercase c
      | none => false) then .leave else .stay
  | .translator =>
    if k == .lily .name || k == .lily .contextName then .replace (.lily .expectTranslatorId)
    else .stay
  | .expectTranslatorId =>
    if k == .lily .equalSign then .replace (.lily .translatorId) else .stay
  | .translatorId => if k == .lily .name then .leave else .stay
  | .revert | .tweak =>
    if k == .lily .grobProperty || k == .lily .name then .leave else .stay
  | .pitchCommand =>
    if k == .lily .note then .spend
    else if k == .space && arguments == 0 then .leave
    else .stay
  | _ => openIf (k == .lily .openBracket)

end ScoreText.Lily
