import ScoreText.Lexer.Rule
/-!
Which kinds may occur in each region of LilyPond input.

Blanks and comments may stand anywhere. Strings and Scheme expressions are added to them where a
value may stand. Blocks at the top level take commands, and music takes notes, durations and what
follows them.
-/
namespace ScoreText.Lily

def commandKinds : List Kind :=
  [.repeatCommand, .pitchCommand, .override, .revert, .set, .unset, .tweak, .tempo, .new, .context,
   .change, .withBlock, .clef, .chordMode, .drumMode, .figureMode, .lyricMode, .noteMode, .markup,
   .markupLines, .markupList, .simultaneousOrSequentialCommand, .spacer, .keyword, .command,
   .userCommand]

def noteKinds : List Kind :=
  [.dynamic, .skip, .rest, .q, .note, .fraction, .length, .octave, .octaveCheck,
   .accidentalCautionary, .accidentalReminder, .pipeSymbol, .voiceSeparator, .sequentialStart,
   .sequentialEnd, .simultaneousStart, .simultaneousEnd, .chordStart, .contextName, .grobName,
   .slurStart, .slurEnd, .phrasingSlurStart, .phrasingSlurEnd, .tie, .beamStart, .beamEnd,
   .ligatureStart, .ligatureEnd, .direction, .articulation, .stringNumber, .integerValue]

private def lily (ks : List Kind) : List TokenKind :=
  ks.map .lily

def spaceKinds : List TokenKind :=
  .space :: lily [.blockCommentStart, .lineComment]

def baseKinds : List TokenKind :=
  spaceKinds ++ lily [.schemeStart, .stringQuotedStart]

def blockKinds : List TokenKind :=
  baseKinds ++ lily [.fraction, .sequentialStart, .simultaneousStart] ++ lily commandKinds

def chordKinds : List TokenKind :=
  baseKinds ++ lily noteKinds ++ lily commandKinds

def musicKinds : List TokenKind :=
  chordKinds ++ lily [.tremoloColon]

def markupStarts : List Kind :=
  [.markup, .markupLines, .markupList]

def globalKinds : List TokenKind :=
  lily [.book, .bookPart, .score] ++ lily markupStarts ++ lily [.paper, .header, .layout] ++
    blockKinds ++ lily [.name, .equalSign]

/-- A region that ends where none of its kinds occurs. -/
private def passing (candidates : List TokenKind) (arguments : Nat) : Rule :=
  { candidates, unclaimed := .leave, arguments }

private def reading (candidates : List TokenKind) : Rule :=
  { candidates, mode := some .lilypond }

def Region.rule : Region → Rule
  | .global => reading globalKinds
  | .expectScore | .expectBook | .expectBookPart | .expectPaper | .expectHeader | .expectLayout
  | .expectMidi | .expectWith | .expectContext =>
    { candidates := spaceKinds ++ lily [.openBracket]
      unclaimed := .leave
      mode := some .lilypond }
  | .score => reading (lily [.closeBracket, .header, .layout, .midi, .withBlock] ++ blockKinds)
  | .book =>
    reading (lily ([.closeBracket] ++ markupStarts ++ [.bookPart, .score, .paper, .header, .layout])
      ++ blockKinds)
  | .bookPart =>
    reading (lily ([.closeBracket] ++ markupStarts ++ [.score, .paper, .header, .layout])
      ++ blockKinds)
  | .paper =>
    reading (baseKinds ++ lily ([.closeBracket] ++ markupStarts ++
      [.paperVariable, .equalSign, .decimalValue, .unit]))
  | .header =>
    reading (lily ([.closeBracket] ++ markupStarts ++ [.headerVariable, .equalSign]) ++ blockKinds)
  | .layout | .midi =>
    reading (baseKinds ++
      lily [.closeBracket, .layoutContext, .layoutVariable, .equalSign, .decimalValue, .unit])
  | .withBlock => reading (lily [.closeBracket, .contextProperty, .equalSign] ++ blockKinds)
  | .context =>
    reading (lily [.closeBracket, .backSlashedContextName, .contextProperty, .equalSign]
      ++ blockKinds)
  | .music | .noteMode => reading musicKinds
  | .chord => reading (lily [.errorInChord, .chordEnd] ++ chordKinds)
  | .string =>
    { candidates := lily [.stringQuotedEnd, .stringQuoteEscape], unclaimed := .fill (.lily .string) }
  | .blockComment =>
    { candidates := lily [.blockCommentEnd], unclaimed := .fill (.lily .comment) }
  | .markup =>
    { candidates :=
        lily [.markupScore, .markupCommand, .markupUserCommand, .openBracketMarkup,
          .closeBracketMarkup, .markupWord] ++ baseKinds }
  | .repeatCommand =>
    passing (spaceKinds ++ lily [.repeatSpecifier, .repeatStringSpecifier, .repeatCount]) 0
  | .duration =>
    { candidates := spaceKinds ++ lily [.dot], unclaimed := .replace (.lily .durationScaling) }
  | .durationScaling => passing (spaceKinds ++ lily [.scaling]) 0
  | .override =>
    reading (lily [.contextName, .dotSetOverride, .grobName, .grobProperty, .equalSignSetOverride,
      .name] ++ baseKinds)
  | .revert =>
    passing (spaceKinds ++
      lily [.contextName, .dotSetOverride, .grobName, .grobProperty, .name, .schemeStart]) 0
  | .set =>
    reading (lily [.contextName, .dotSetOverride, .contextProperty, .equalSignSetOverride, .name]
      ++ baseKinds)
  | .unset =>
    passing (spaceKinds ++ lily [.contextName, .dotSetOverride, .contextProperty, .name]) 0
  | .tweak => passing (spaceKinds ++ lily [.grobName, .dotSetOverride, .grobProperty, .name]) 0
  | .translator => passing (spaceKinds ++ lily [.contextName, .name]) 0
  | .expectTranslatorId => passing (spaceKinds ++ lily [.equalSign]) 0
  | .translatorId => passing (spaceKinds ++ lily [.name, .stringQuotedStart]) 1
  | .clef => passing (spaceKinds ++ lily [.clefSpecifier, .stringQuotedStart]) 1
  | .scriptAbbreviationOrFingering =>
    passing (spaceKinds ++ lily [.scriptAbbreviation, .fingering]) 1
  | .expectLyricMode =>
    passing (spaceKinds ++
      lily [.openBracket, .openSimultaneous, .schemeStart, .stringQuotedStart, .name]) 0
  | .lyricMode =>
    reading (baseKinds ++
      lily ([.closeBracket, .closeSimultaneous, .openBracket, .openSimultaneous, .pipeSymbol,
        .lyricHyphen, .lyricExtender, .lyricSkip, .lyricTie, .lyricText, .dynamic, .skip, .length]
        ++ markupStarts ++ commandKinds))
  | .expectChordMode | .expectNoteMode | .expectDrumMode | .expectFigureMode =>
    passing (spaceKinds ++ lily [.openBracket, .openSimultaneous]) 0
  | .chordMode =>
    reading (lily [.openBracket, .openSimultaneous] ++ musicKinds ++ lily [.chordSeparator])
  | .drumMode | .figureMode => reading (lily [.openBracket, .openSimultaneous] ++ musicKinds)
  | .pitchCommand => passing (spaceKinds ++ lily [.note, .octave]) 1
  | .tremolo => passing (lily [.tremoloDuration]) 0
  | .chordItems =>
    passing (lily [.chordSeparator, .chordModifier, .chordStepNumber, .chordDot, .note]) 0
  | .tempo =>
    passing (spaceKinds ++ lily (markupStarts ++
      [.stringQuotedStart, .schemeStart, .length, .equalSign, .integerValue, .tempoSeparator])) 0

end ScoreText.Lily
