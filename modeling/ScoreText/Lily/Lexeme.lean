import ScoreText.Lexer.Site
import ScoreText.Lily.Kind
import ScoreText.Lily.Words
import ScoreText.Pattern
/-!
What tokens of LilyPond input look like: a pattern for each kind, and what a match must have
around it to be a token of that kind.
-/
namespace ScoreText.Lily

open Pattern

private def backslash : Pattern := char '\\'

private def isLetterOrHyphen (c : Char) : Bool :=
  c.isAlpha || c == '-'

def backslashWord : Pattern :=
  sequence [backslash, letter, run isLetterOrHyphen]

def hyphenWord : Pattern :=
  seq letter (run fun c => c.isAlphanum || c == '-' || c == '_')

def letters : Pattern :=
  oneOrMore Char.isAlpha

/-- The written lengths, longer spellings first. -/
def lengths : Pattern :=
  alt (seq backslash (texts ["maxima", "longa", "breve"]))
    (texts ["2048", "1024", "512", "256", "128", "64", "32", "16", "8", "4", "2", "1"])

def factor : Pattern :=
  sequence [char '*', run fun c => c == '\t' || c == ' ', digits, opt (seq (char '/') digits)]

def octaveMarks : Pattern :=
  alt (oneOrMore (· == ',')) (oneOrMore (· == '\''))

def Kind.pattern : Kind → Pattern
  | .comment | .string => never
  | .blockCommentStart => text "%\x7b"
  | .blockCommentEnd => text "%\x7d"
  | .lineComment => seq (char '%') line
  | .stringQuotedStart | .stringQuotedEnd => char '"'
  | .stringQuoteEscape => seq backslash (among "\\\"")
  | .skip => char 's'
  | .spacer => text "\\skip"
  | .rest => among "Rr"
  | .q => char 'q'
  | .note => oneOrMore fun c => 'a' ≤ c && c ≤ 'x'
  | .octave => octaveMarks
  | .octaveCheck => seq (char '=') (opt octaveMarks)
  | .accidentalReminder => char '!'
  | .accidentalCautionary => char '?'
  | .length => lengths
  | .dot | .dotSetOverride | .chordDot => char '.'
  | .scaling => factor
  | .openBracket | .sequentialStart | .openBracketMarkup => text "\x7b"
  | .closeBracket | .sequentialEnd | .closeBracketMarkup => text "\x7d"
  | .openSimultaneous | .simultaneousStart => text "<<"
  | .closeSimultaneous | .simultaneousEnd => text ">>"
  | .chordStart => char '<'
  | .chordEnd => char '>'
  | .errorInChord =>
    oneOf [seq (among "-_^") (among "_.>|+^-"), text "<<", text ">>",
      seq backslash (among "\\][()"), lengths, factor]
  | .pipeSymbol => char '|'
  | .voiceSeparator => text "\\\\"
  | .decimalValue => sequence [opt (char '-'), digits, opt (seq (char '.') digits)]
  | .integerValue | .repeatCount => digits
  | .fraction => sequence [digits, char '/', digits]
  | .dynamic => alt (seq backslash (among "<!>")) backslashWord
  | .articulation => backslashWord
  | .direction => among "-_^"
  | .scriptAbbreviation => among "+|>._^-"
  | .fingering => one Text.isDecimal
  | .stringNumber => seq backslash digits
  | .slurStart => char '('
  | .slurEnd => char ')'
  | .phrasingSlurStart => text "\\("
  | .phrasingSlurEnd => text "\\)"
  | .tie | .lyricTie => char '~'
  | .beamStart => char '['
  | .beamEnd => char ']'
  | .ligatureStart => text "\\["
  | .ligatureEnd => text "\\]"
  | .tremoloColon => char ':'
  | .tremoloDuration => texts ["2048", "1024", "512", "256", "128", "64", "32", "16", "8"]
  | .chordModifier => texts ["aug", "dim", "sus", "min", "maj", "m"]
  | .chordSeparator => oneOf [char ':', char '^', seq (char '/') (opt (char '+'))]
  | .chordStepNumber => seq digits (opt (among "-+"))
  | .keyword | .command | .pitchCommand | .unit | .backSlashedContextName => backslashWord
  | .lyricMode | .noteMode | .chordMode | .drumMode | .figureMode => backslashWord
  | .userCommand => seq backslash letters
  | .score | .markupScore => text "\\score"
  | .book => text "\\book"
  | .bookPart => text "\\bookpart"
  | .paper => text "\\paper"
  | .header => text "\\header"
  | .layout => text "\\layout"
  | .midi => text "\\midi"
  | .withBlock => text "\\with"
  | .layoutContext | .context => text "\\context"
  | .markup => text "\\markup"
  | .markupLines => text "\\markuplines"
  | .markupList => text "\\markuplist"
  | .markupCommand | .markupUserCommand =>
    sequence [backslash, letters, many (seq (char '-') letters)]
  | .markupWord =>
    oneOrMore fun c => !("\x7b\x7d\"\\#%".toList.contains c || Text.isBlank c)
  | .repeatCommand => text "\\repeat"
  | .repeatSpecifier | .contextName | .grobName | .contextProperty => letters
  | .repeatStringSpecifier => sequence [char '"', letters, char '"']
  | .override => text "\\override"
  | .set => text "\\set"
  | .revert => text "\\revert"
  | .unset => text "\\unset"
  | .tweak => text "\\tweak"
  | .equalSignSetOverride | .equalSign => char '='
  | .new => text "\\new"
  | .change => text "\\change"
  | .clef => text "\\clef"
  | .clefSpecifier | .paperVariable | .headerVariable | .layoutVariable => hyphenWord
  | .tempo => text "\\tempo"
  | .tempoSeparator => char '-'
  | .simultaneousOrSequentialCommand => texts ["\\simultaneous", "\\sequential"]
  | .lyricText =>
    oneOrMore fun c => !("\\~\"".toList.contains c || Text.isBlank c || Text.isDecimal c)
  | .lyricHyphen => text "--"
  | .lyricExtender => text "__"
  | .lyricSkip => char '_'
  | .schemeStart => among "#$"
  | .grobProperty => seq (oneOrMore Char.isLower) (many (seq (char '-') (oneOrMore Char.isLower)))
  | .name => letters

def Kind.keep? (k : Kind) (s : Site) : Option Nat :=
  let whole := s.wholeIf true
  match k with
  | .skip | .rest | .q | .note | .markup | .markupLines | .markupList | .repeatCommand
  | .spacer => s.wholeIf s.noLetterAfter
  | .length | .errorInChord =>
    if Site.holds Char.isDigit s.lexeme.head? then s.wholeIf s.noDigitAfter
    else if s.lexeme.head? == some '\\' && s.lexeme.length > 2 then s.wholeIf s.boundaryAfter
    else whole
  | .tremoloDuration => s.wholeIf (s.startsWord && s.noDigitAfter)
  | .chordModifier =>
    s.wholeIf (!Site.holds Char.isLower s.before && !Site.holds Char.isLower s.after.head?)
  | .dynamic =>
    if Site.holds "<!>".toList.contains (s.next? 1) then some 2 else s.command? Words.dynamics
  | .articulation => s.command? Words.articulations
  | .keyword => s.command? Words.keywords
  | .command => s.command? Words.commands
  | .pitchCommand => s.commandWord? Words.pitchCommands
  | .unit => s.commandWord? Words.units
  | .lyricMode => s.commandWord? Words.lyricModes
  | .noteMode => s.commandWord? Words.noteModes
  | .chordMode => s.commandWord? Words.chordModes
  | .drumMode => s.commandWord? Words.drumModes
  | .figureMode => s.commandWord? Words.figureModes
  | .backSlashedContextName => s.commandWord? Words.contexts
  | .score | .markupScore | .book | .bookPart | .paper | .header | .layout | .midi | .withBlock
  | .layoutContext | .context | .override | .set | .revert | .unset | .tweak | .new | .change
  | .clef | .tempo | .simultaneousOrSequentialCommand => s.wholeIf s.boundaryAfter
  | .markupCommand => s.wholeIf (Words.isMarkupCommand (String.ofList (s.lexeme.drop 1)))
  | .repeatSpecifier => s.bareWord? Words.repeatTypes Char.isAlpha
  | .repeatStringSpecifier =>
    s.wholeIf (Words.repeatTypes.contains (String.ofList (s.lexeme.drop 1).dropLast))
  | .contextName => s.bareWord? Words.contexts Text.isAsciiWord
  | .grobName => s.bareWord? Words.grobs Text.isAsciiWord
  | .contextProperty => s.bareWord? Words.contextProperties Text.isAsciiWord
  | .clefSpecifier => s.bareWord? Words.clefs Text.isAsciiWord
  | .paperVariable => s.bareWord? Words.paperVariables Text.isAsciiWord
  | .headerVariable => s.bareWord? Words.headerVariables Text.isAsciiWord
  | .layoutVariable => s.bareWord? Words.layoutVariables Text.isAsciiWord
  | .schemeStart => s.wholeIf (!Site.holds "\x7b\x7d".toList.contains s.after.head?)
  | _ => whole

end ScoreText.Lily
