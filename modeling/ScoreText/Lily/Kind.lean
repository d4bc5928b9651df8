import ScoreText.Token.Trait
/-!
The token kinds of LilyPond input and what can be said of a kind alone.
-/
namespace ScoreText.Lily

inductive Kind where
  -- comments and strings
  | comment | blockCommentStart | blockCommentEnd | lineComment
  | string | stringQuotedStart | stringQuotedEnd | stringQuoteEscape
  -- music items
  | skip | spacer | rest | q | note | octave | octaveCheck | accidentalReminder
  | accidentalCautionary
  | length | dot | scaling
  -- delimiters
  | openBracket | closeBracket | openSimultaneous | closeSimultaneous
  | sequentialStart | sequentialEnd | simultaneousStart | simultaneousEnd
  | chordStart | chordEnd | errorInChord | pipeSymbol | voiceSeparator
  -- values
  | decimalValue | integerValue | fraction
  -- postfix events
  | dynamic | articulation | direction | scriptAbbreviation | fingering | stringNumber
  | slurStart | slurEnd | phrasingSlurStart | phrasingSlurEnd | tie
  | beamStart | beamEnd | ligatureStart | ligatureEnd
  | tremoloColon | tremoloDuration
  | chordModifier | chordSeparator | chordStepNumber | chordDot
  -- keywords and commands
  | keyword | command | userCommand
  | score | book | bookPart | paper | header | layout | midi | withBlock | layoutContext
  | markup | markupLines | markupList | markupCommand | markupUserCommand | markupScore
  | markupWord
  | openBracketMarkup | closeBracketMarkup
  | repeatCommand | repeatSpecifier | repeatStringSpecifier | repeatCount
  | override | set | revert | unset | tweak | dotSetOverride | equalSignSetOverride
  | new | context | change
  | clef | clefSpecifier
  | pitchCommand | unit | tempo | tempoSeparator | simultaneousOrSequentialCommand
  | lyricMode | noteMode | chordMode | drumMode | figureMode
  | lyricText | lyricHyphen | lyricExtender | lyricSkip | lyricTie
  | schemeStart
  -- names
  | contextName | backSlashedContextName | grobName | grobProperty | contextProperty
  | paperVariable | headerVariable | layoutVariable
  | name | equalSign
  deriving DecidableEq, Repr

def Kind.label : Kind → String
  | .comment => "Comment"
  | .blockCommentStart => "BlockCommentStart"
  | .blockCommentEnd => "BlockCommentEnd"
  | .lineComment => "LineComment"
  | .string => "String"
  | .stringQuotedStart => "StringQuotedStart"
  | .stringQuotedEnd => "StringQuotedEnd"
  | .stringQuoteEscape => "StringQuoteEscape"
  | .skip => "Skip"
  | .spacer => "Spacer"
  | .rest => "Rest"
  | .q => "Q"
  | .note => "Note"
  | .octave => "Octave"
  | .octaveCheck => "OctaveCheck"
  | .accidentalReminder => "AccidentalReminder"
  | .accidentalCautionary => "AccidentalCautionary"
  | .length => "Length"
  | .dot => "Dot"
  | .scaling => "Scaling"
  | .openBracket => "OpenBracket"
  | .closeBracket => "CloseBracket"
  | .openSimultaneous => "OpenSimultaneous"
  | .closeSimultaneous => "CloseSimultaneous"
  | .sequentialStart => "SequentialStart"
  | .sequentialEnd => "SequentialEnd"
  | .simultaneousStart => "SimultaneousStart"
  | .simultaneousEnd => "SimultaneousEnd"
  | .chordStart => "ChordStart"
  | .chordEnd => "ChordEnd"
  | .errorInChord => "ErrorInChord"
  | .pipeSymbol => "PipeSymbol"
  | .voiceSeparator => "VoiceSeparator"
  | .decimalValue => "DecimalValue"
  | .integerValue => "IntegerValue"
  | .fraction => "Fraction"
  | .dynamic => "Dynamic"
  | .articulation => "Articulation"
  | .direction => "Direction"
  | .scriptAbbreviation => "ScriptAbbreviation"
  | .fingering => "Fingering"
  | .stringNumber => "StringNumber"
  | .slurStart => "SlurStart"
  | .slurEnd => "SlurEnd"
  | .phrasingSlurStart => "PhrasingSlurStart"
  | .phrasingSlurEnd => "PhrasingSlurEnd"
  | .tie => "Tie"
  | .beamStart => "BeamStart"
  | .beamEnd => "BeamEnd"
  | .ligatureStart => "LigatureStart"
  | .ligatureEnd => "LigatureEnd"
  | .tremoloColon => "TremoloColon"
  | .tremoloDuration => "TremoloDuration"
  | .chordModifier => "ChordModifier"
  | .chordSeparator => "ChordSeparator"
  | .chordStepNumber => "ChordStepNumber"
  | .chordDot => "ChordDot"
  | .keyword => "Keyword"
  | .command => "Command"
  | .userCommand => "UserCommand"
  | .score => "Score"
  | .book => "Book"
  | .bookPart => "BookPart"
  | .paper => "Paper"
  | .header => "Header"
  | .layout => "Layout"
  | .midi => "Midi"
  | .withBlock => "With"
  | .layoutContext => "LayoutContext"
  | .markup => "Markup"
  | .markupLines => "MarkupLines"
  | .markupList => "MarkupList"
  | .markupCommand => "MarkupCommand"
  | .markupUserCommand => "MarkupUserCommand"
  | .markupScore => "MarkupScore"
  | .markupWord => "MarkupWord"
  | .openBracketMarkup => "OpenBracketMarkup"
  | .closeBracketMarkup => "CloseBracketMarkup"
  | .repeatCommand => "Repeat"
  | .repeatSpecifier => "RepeatSpecifier"
  | .repeatStringSpecifier => "RepeatStringSpecifier"
  | .repeatCount => "RepeatCount"
  | .override => "Override"
  | .set => "Set"
  | .revert => "Revert"
  | .unset => "Unset"
  | .tweak => "Tweak"
  | .dotSetOverride => "DotSetOverride"
  | .equalSignSetOverride => "EqualSignSetOverride"
  | .new => "New"
  | .context => "Context"
  | .change => "Change"
  | .clef => "Clef"
  | .clefSpecifier => "ClefSpecifier"
  | .pitchCommand => "PitchCommand"
  | .unit => "Unit"
  | .tempo => "Tempo"
  | .tempoSeparator => "TempoSeparator"
  | .simultaneousOrSequentialCommand => "SimultaneousOrSequentialCommand"
  | .lyricMode => "LyricMode"
  | .noteMode => "NoteMode"
  | .chordMode => "ChordMode"
  | .drumMode => "DrumMode"
  | .figureMode => "FigureMode"
  | .lyricText => "LyricText"
  | .lyricHyphen => "LyricHyphen"
  | .lyricExtender => "LyricExtender"
  | .lyricSkip => "LyricSkip"
  | .lyricTie => "LyricTie"
  | .schemeStart => "SchemeStart"
  | .contextName => "ContextName"
  | .backSlashedContextName => "BackSlashedContextName"
  | .grobName => "GrobName"
  | .grobProperty => "GrobProperty"
  | .contextProperty => "ContextProperty"
  | .paperVariable => "PaperVariable"
  | .headerVariable => "HeaderVariable"
  | .layoutVariable => "LayoutVariable"
  | .name => "Name"
  | .equalSign => "EqualSign"

def Kind.all : List Kind :=
  [.comment, .blockCommentStart, .blockCommentEnd, .lineComment, .string, .stringQuotedStart,
   .stringQuotedEnd, .stringQuoteEscape, .skip, .spacer, .rest, .q, .note, .octave, .octaveCheck,
   .accidentalReminder, .accidentalCautionary, .length, .dot, .scaling, .openBracket,
   .closeBracket, .openSimultaneous, .closeSimultaneous, .sequentialStart, .sequentialEnd,
   .simultaneousStart, .simultaneousEnd, .chordStart, .chordEnd, .errorInChord, .pipeSymbol,
   .voiceSeparator, .decimalValue, .integerValue, .fraction, .dynamic, .articulation, .direction,
   .scriptAbbreviation, .fingering, .stringNumber, .slurStart, .slurEnd, .phrasingSlurStart,
   .phrasingSlurEnd, .tie, .beamStart, .beamEnd, .ligatureStart, .ligatureEnd, .tremoloColon,
   .tremoloDuration, .chordModifier, .chordSeparator, .chordStepNumber, .chordDot, .keyword,
   .command, .userCommand, .score, .book, .bookPart, .paper, .header, .layout, .midi, .withBlock,
   .layoutContext, .markup, .markupLines, .markupList, .markupCommand, .markupUserCommand,
   .markupScore, .markupWord, .openBracketMarkup, .closeBracketMarkup, .repeatCommand,
   .repeatSpecifier, .repeatStringSpecifier, .repeatCount, .override, .set, .revert, .unset,
   .tweak, .dotSetOverride, .equalSignSetOverride, .new, .context, .change, .clef,
   .clefSpecifier, .pitchCommand, .unit, .tempo, .tempoSeparator,
   .simultaneousOrSequentialCommand, .lyricMode, .noteMode, .chordMode, .drumMode, .figureMode,
   .lyricText, .lyricHyphen, .lyricExtender, .lyricSkip, .lyricTie, .schemeStart, .contextName,
   .backSlashedContextName, .grobName, .grobProperty, .contextProperty, .paperVariable,
   .headerVariable, .layoutVariable, .name, .equalSign]

namespace Kind

/-- Whether the kind is a word of the language that opens or names a block or a setting. -/
def isKeyword : Kind → Bool
  | .keyword | .score | .book | .bookPart | .paper | .header | .layout | .midi | .withBlock
  | .layoutContext | .override | .set | .revert | .unset | .tweak => true
  | _ => false

def isCommand : Kind → Bool
  | .command | .spacer | .markup | .markupLines | .markupList | .markupCommand | .markupScore
  | .repeatCommand | .new | .context | .change | .clef | .pitchCommand | .unit | .tempo
  | .lyricMode | .noteMode | .chordMode | .drumMode | .figureMode => true
  | _ => false

def isDuration : Kind → Bool
  | .length | .dot | .scaling => true
  | _ => false

def isMarkupStart : Kind → Bool
  | .markup | .markupLines | .markupList => true
  | _ => false

def isLyric : Kind → Bool
  | .lyricText | .lyricHyphen | .lyricExtender | .lyricSkip | .lyricTie => true
  | _ => false

def isSlur : Kind → Bool
  | .slurStart | .slurEnd | .phrasingSlurStart | .phrasingSlurEnd | .tie => true
  | _ => false

def isBeam : Kind → Bool
  | .beamStart | .beamEnd | .ligatureStart | .ligatureEnd => true
  | _ => false

/-- Whether the kind follows the root of a chord name. -/
def isChordItem : Kind → Bool
  | .chordModifier | .chordSeparator | .chordStepNumber | .chordDot => true
  | _ => false

/-- Whether the kind is an articulation or the direction in front of one. -/
def isArticulation : Kind → Bool
  | .articulation | .direction | .scriptAbbreviation | .fingering | .stringNumber => true
  | _ => false

def capabilities : Kind → List Capability
  | .blockCommentStart => [.indent]
  | .blockCommentEnd => [.leaver, .dedent]
  | .openBracket | .sequentialStart | .openBracketMarkup | .openSimultaneous
  | .simultaneousStart => [.matchStart, .indent]
  | .closeBracket | .sequentialEnd | .closeBracketMarkup | .closeSimultaneous
  | .simultaneousEnd => [.matchEnd, .dedent]
  | .chordStart | .slurStart | .phrasingSlurStart | .beamStart | .ligatureStart => [.matchStart]
  | .chordEnd => [.leaver, .matchEnd]
  | .slurEnd | .phrasingSlurEnd | .beamEnd | .ligatureEnd => [.matchEnd]
  | .scriptAbbreviation | .fingering | .tremoloDuration => [.leaver]
  | .repeatCount => [.item, .leaver]
  | .decimalValue | .integerValue | .fraction | .markupWord | .schemeStart => [.item]
  | .lyricText | .lyricHyphen | .lyricExtender | .lyricSkip | .lyricTie => [.item]
  | k => if k.isKeyword || k.isCommand then [.item] else []

def categories : Kind → List Category
  | .comment | .blockCommentStart | .blockCommentEnd | .lineComment => [.comment]
  | .string | .repeatStringSpecifier => [.string]
  | .stringQuotedStart => [.string, .stringStart]
  | .stringQuotedEnd => [.string, .stringEnd]
  | .stringQuoteEscape => [.character]
  | .decimalValue | .integerValue | .fraction | .repeatCount => [.numeric]
  | .errorInChord => [.error]
  | _ => []

def pair? : Kind → Option String
  | .openBracket | .closeBracket | .sequentialStart | .sequentialEnd | .openBracketMarkup
  | .closeBracketMarkup => some "bracket"
  | .openSimultaneous | .closeSimultaneous | .simultaneousStart
  | .simultaneousEnd => some "simultaneous"
  | .chordStart | .chordEnd => some "chord"
  | .slurStart | .slurEnd => some "slur"
  | .phrasingSlurStart | .phrasingSlurEnd => some "phrasingslur"
  | .beamStart | .beamEnd => some "beam"
  | .ligatureStart | .ligatureEnd => some "ligature"
  | _ => none

end Kind

end ScoreText.Lily
