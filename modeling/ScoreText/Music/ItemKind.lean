/-!
The kinds of items that a score is made of.
-/
namespace ScoreText

/-- What an item stands for. -/
inductive ItemKind where
  | document
  -- durable leaves
  | note | rest | skip | q | chord | unpitched | lyricText
  | writtenDuration
  -- music expressions
  | musicList | tag | scaler | grace | afterGrace | partCombine
  | relative | absolute | transpose | repetition | alternative
  | noteMode | chordMode | drumMode | figureMode | lyricMode | lyricsTo
  | context | userCommand
  -- other music content
  | lyricItem | chordSpecifier | chordItem | tremolo | change
  | tempo | timeSignature | partialMeasure | clef | keySignature
  | pipeSymbol | voiceSeparator | postEvent | tie | slur | phrasingSlur | beam
  | dynamic | articulation | stringTuning
  | keyword | command | version | inclusion | language
  -- markup
  | markup | markupCommand | markupUserCommand | markupScore | markupList | markupWord
  -- toplevel and blocks
  | assignment | book | bookPart | score | header | paper | layout | midi | layoutContext
  | withBlock
  | set | unset | override | revert | tweak | pathItem
  -- values
  | string | number | scheme | schemeItem | schemeList | schemeQuote | schemeLily
  deriving DecidableEq, Repr

def ItemKind.label : ItemKind → String
  | .document => "Document"
  | .note => "Note"
  | .rest => "Rest"
  | .skip => "Skip"
  | .q => "Q"
  | .chord => "Chord"
  | .unpitched => "Unpitched"
  | .lyricText => "LyricText"
  | .writtenDuration => "WrittenDuration"
  | .musicList => "MusicList"
  | .tag => "Tag"
  | .scaler => "Scaler"
  | .grace => "Grace"
  | .afterGrace => "AfterGrace"
  | .partCombine => "PartCombine"
  | .relative => "Relative"
  | .absolute => "Absolute"
  | .transpose => "Transpose"
  | .repetition => "Repeat"
  | .alternative => "Alternative"
  | .noteMode => "NoteMode"
  | .chordMode => "ChordMode"
  | .drumMode => "DrumMode"
  | .figureMode => "FigureMode"
  | .lyricMode => "LyricMode"
  | .lyricsTo => "LyricsTo"
  | .context => "Context"
  | .userCommand => "UserCommand"
  | .lyricItem => "LyricItem"
  | .chordSpecifier => "ChordSpecifier"
  | .chordItem => "ChordItem"
  | .tremolo => "Tremolo"
  | .change => "Change"
  | .tempo => "Tempo"
  | .timeSignature => "TimeSignature"
  | .partialMeasure => "Partial"
  | .clef => "Clef"
  | .keySignature => "KeySignature"
  | .pipeSymbol => "PipeSymbol"
  | .voiceSeparator => "VoiceSeparator"
  | .postEvent => "Postfix"
  | .tie => "Tie"
  | .slur => "Slur"
  | .phrasingSlur => "PhrasingSlur"
  | .beam => "Beam"
  | .dynamic => "Dynamic"
  | .articulation => "Articulation"
  | .stringTuning => "StringTuning"
  | .keyword => "Keyword"
  | .command => "Command"
  | .version => "Version"
  | .inclusion => "Include"
  | .language => "Language"
  | .markup => "Markup"
  | .markupCommand => "MarkupCommand"
  | .markupUserCommand => "MarkupUserCommand"
  | .markupScore => "MarkupScore"
  | .markupList => "MarkupList"
  | .markupWord => "MarkupWord"
  | .assignment => "Assignment"
  | .book => "Book"
  | .bookPart => "BookPart"
  | .score => "Score"
  | .header => "Header"
  | .paper => "Paper"
  | .layout => "Layout"
  | .midi => "Midi"
  | .layoutContext => "LayoutContext"
  | .withBlock => "With"
  | .set => "Set"
  | .unset => "Unset"
  | .override => "Override"
  | .revert => "Revert"
  | .tweak => "Tweak"
  | .pathItem => "PathItem"
  | .string => "String"
  | .number => "Number"
  | .scheme => "Scheme"
  | .schemeItem => "SchemeItem"
  | .schemeList => "SchemeList"
  | .schemeQuote => "SchemeQuote"
  | .schemeLily => "SchemeLily"

def ItemKind.all : List ItemKind :=
  [.document, .note, .rest, .skip, .q, .chord, .unpitched, .lyricText, .writtenDuration,
   .musicList, .tag, .scaler, .grace, .afterGrace, .partCombine, .relative, .absolute,
   .transpose, .repetition, .alternative, .noteMode, .chordMode, .drumMode, .figureMode,
   .lyricMode, .lyricsTo, .context, .userCommand, .lyricItem, .chordSpecifier, .chordItem,
   .tremolo, .change, .tempo, .timeSignature, .partialMeasure, .clef, .keySignature, .pipeSymbol,
   .voiceSeparator, .postEvent, .tie, .slur, .phrasingSlur, .beam, .dynamic, .articulation,
   .stringTuning, .keyword, .command, .version, .inclusion, .language, .markup, .markupCommand,
   .markupUserCommand, .markupScore, .markupList, .markupWord, .assignment, .book, .bookPart,
   .score, .header, .paper, .layout, .midi, .layoutContext, .withBlock, .set, .unset, .override,
   .revert, .tweak, .pathItem, .string, .number, .scheme, .schemeItem, .schemeList, .schemeQuote,
   .schemeLily]

namespace ItemKind

def ofLabel? (s : String) : Option ItemKind :=
  all.find? (·.label == s)

/-- Whether the children of an item make up its time. -/
def isMusic : ItemKind → Bool
  | musicList | tag | scaler | grace | afterGrace | partCombine | relative | absolute | transpose
  | repetition | alternative | noteMode | chordMode | drumMode | figureMode | lyricMode | lyricsTo
  | context | userCommand => true
  | _ => false

/-- Whether an item takes time of its own. -/
def isDurable : ItemKind → Bool
  | note | rest | skip | q | chord | unpitched | lyricText => true
  | _ => false

def isInputMode : ItemKind → Bool
  | noteMode | chordMode | drumMode | figureMode | lyricMode | lyricsTo => true
  | _ => false

/-- Whether an item takes time, on its own or through its children. -/
def isTimed (k : ItemKind) : Bool :=
  k.isMusic || k.isDurable

end ItemKind

end ScoreText
