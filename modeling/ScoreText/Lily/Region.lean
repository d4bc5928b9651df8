/-!
The regions of LilyPond input: places in which a fixed set of token kinds may occur.
-/
namespace ScoreText.Lily

/-- The regions of LilyPond input. An expecting region waits for the bracket that opens a block. -/
inductive Region where
  | global
  | expectScore | score | expectBook | book | expectBookPart | bookPart
  | expectPaper | paper | expectHeader | header | expectLayout | layout
  | expectMidi | midi | expectWith | withBlock | expectContext | context
  | music | chord | string | blockComment | markup
  | repeatCommand | duration | durationScaling
  | override | revert | set | unset | tweak
  | translator | expectTranslatorId | translatorId
  | clef | scriptAbbreviationOrFingering
  | expectLyricMode | lyricMode | expectChordMode | chordMode
  | expectNoteMode | noteMode | expectDrumMode | drumMode | expectFigureMode | figureMode
  | pitchCommand | tremolo | chordItems | tempo
  deriving DecidableEq, Repr

def Region.label : Region → String
  | .global => "Global"
  | .expectScore => "ExpectScore"
  | .score => "ParseScore"
  | .expectBook => "ExpectBook"
  | .book => "ParseBook"
  | .expectBookPart => "ExpectBookPart"
  | .bookPart => "ParseBookPart"
  | .expectPaper => "ExpectPaper"
  | .paper => "ParsePaper"
  | .expectHeader => "ExpectHeader"
  | .header => "ParseHeader"
  | .expectLayout => "ExpectLayout"
  | .layout => "ParseLayout"
  | .expectMidi => "ExpectMidi"
  | .midi => "ParseMidi"
  | .expectWith => "ExpectWith"
  | .withBlock => "ParseWith"
  | .expectContext => "ExpectContext"
  | .context => "ParseContext"
  | .music => "ParseMusic"
  | .chord => "ParseChord"
  | .string => "ParseString"
  | .blockComment => "ParseBlockComment"
  | .markup => "ParseMarkup"
  | .repeatCommand => "ParseRepeat"
  | .duration => "ParseDuration"
  | .durationScaling => "ParseDurationScaling"
  | .override => "ParseOverride"
  | .revert => "ParseRevert"
  | .set => "ParseSet"
  | .unset => "ParseUnset"
  | .tweak => "ParseTweak"
  | .translator => "ParseTranslator"
  | .expectTranslatorId => "ExpectTranslatorId"
  | .translatorId => "ParseTranslatorId"
  | .clef => "ParseClef"
  | .scriptAbbreviationOrFingering => "ParseScriptAbbreviationOrFingering"
  | .expectLyricMode => "ExpectLyricMode"
  | .lyricMode => "ParseLyricMode"
  | .expectChordMode => "ExpectChordMode"
  | .chordMode => "ParseChordMode"
  | .expectNoteMode => "ExpectNoteMode"
  | .noteMode => "ParseNoteMode"
  | .expectDrumMode => "ExpectDrumMode"
  | .drumMode => "ParseDrumMode"
  | .expectFigureMode => "ExpectFigureMode"
  | .figureMode => "ParseFigureMode"
  | .pitchCommand => "ParsePitchCommand"
  | .tremolo => "ParseTremolo"
  | .chordItems => "ParseChordItems"
  | .tempo => "ParseTempo"

def Region.all : List Region :=
  [.global, .expectScore, .score, .expectBook, .book, .expectBookPart, .bookPart, .expectPaper,
   .paper, .expectHeader, .header, .expectLayout, .layout, .expectMidi, .midi, .expectWith,
   .withBlock, .expectContext, .context, .music, .chord, .string, .blockComment, .markup,
   .repeatCommand, .duration, .durationScaling, .override, .revert, .set, .unset, .tweak,
   .translator, .expectTranslatorId, .translatorId, .clef, .scriptAbbreviationOrFingering,
   .expectLyricMode, .lyricMode, .expectChordMode, .chordMode, .expectNoteMode, .noteMode,
   .expectDrumMode, .drumMode, .expectFigureMode, .figureMode, .pitchCommand, .tremolo,
   .chordItems, .tempo]

end ScoreText.Lily
