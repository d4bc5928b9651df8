import ScoreText.Music.Reading.Command
import ScoreText.Music.Reading.Lyric
/-!
Reading a whole score. Each token that can start an item is given to the function that reads it;
tokens that start none are left out, so every text can be read. Items nested too deep are left out,
too.
-/
namespace ScoreText

namespace Reading

def blockKind? : Lily.Kind → Option ItemKind
  | .header => some .header
  | .score => some .score
  | .bookPart => some .bookPart
  | .book => some .book
  | .paper => some .paper
  | .layout => some .layout
  | .midi => some .midi
  | .withBlock => some .withBlock
  | .layoutContext => some .layoutContext
  | _ => none

/-- The kind of item that a command for another kind of input is. -/
def inputKind? : Lily.Kind → Option ItemKind
  | .noteMode => some .noteMode
  | .chordMode => some .chordMode
  | .drumMode => some .drumMode
  | .figureMode => some .figureMode
  | _ => none

def plainKind? : Lily.Kind → Option ItemKind
  | .decimalValue | .integerValue | .fraction => some .number
  | .voiceSeparator => some .voiceSeparator
  | .pipeSymbol => some .pipeSymbol
  | .dynamic => some .dynamic
  | .tie => some .tie
  | .articulation | .fingering | .stringNumber | .scriptAbbreviation => some .articulation
  | _ => none

/-- Reads the music behind a command for another kind of input. -/
def readInput (deeper : Deeper) (kind : ItemKind) (t : Token) : Reading ItemId := do
  let id ← addFor kind t
  appendIf id (← free (readOne deeper))
  return id

def readWholeMarkup (deeper : Deeper) (t : Token) : Reading ItemId := do
  let id ← addFor .markup t
  readMarkupsInto deeper id false
  return id

def readLily (deeper : Deeper) (k : Lily.Kind) (t : Token) : Reading (Option ItemId) := do
  match plainKind? k, blockKind? k, inputKind? k with
  | some kind, _, _ => return some (← addFor kind t)
  | _, some kind, _ => return some (← readBlock deeper kind t)
  | _, _, some kind => return some (← readInput deeper kind t)
  | none, none, none =>
    match k with
    | .schemeStart => return some (← readScheme deeper t)
    | .stringQuotedStart => return some (← readString t)
    | .note | .rest | .skip | .spacer | .q => readMusicItem k t
    | .length => return some (← readUnpitched t)
    | .chordStart => readChord deeper t
    | .openBracket | .sequentialStart | .openSimultaneous | .simultaneousStart
    | .simultaneousOrSequentialCommand => readList deeper t
    | .chordSeparator => return some (← readChordSpecifier t)
    | .tremoloColon => return some (← readTremolo t)
    | .name | .contextProperty => readAssignment deeper t
    | .paperVariable | .layoutVariable | .headerVariable => readVariable deeper t
    | .direction => return some (← readDirection deeper t)
    | .slurStart => return some (← addSpan .slur t true)
    | .slurEnd => return some (← addSpan .slur t false)
    | .phrasingSlurStart => return some (← addSpan .phrasingSlur t true)
    | .phrasingSlurEnd => return some (← addSpan .phrasingSlur t false)
    | .beamStart | .ligatureStart => return some (← addSpan .beam t true)
    | .beamEnd | .ligatureEnd => return some (← addSpan .beam t false)
    | .set => return some (← readSet deeper t)
    | .unset => return some (← readUnset t)
    | .override => return some (← readOverride deeper t)
    | .revert => return some (← readRevert deeper t)
    | .tweak => return some (← readTweak deeper t)
    | .new | .context | .change => return some (← readTranslator deeper t)
    | .clef => return some (← readClef t)
    | .tempo => return some (← readTempo deeper t)
    | .repeatCommand => return some (← readRepeat deeper t)
    | .lyricMode => return some (← readLyricMode deeper t)
    | .markup | .markupLines | .markupList => return some (← readWholeMarkup deeper t)
    | .userCommand =>
      if t.text == "\\partcombine" then return some (← readParts deeper t)
      else return some (← addFor .userCommand t)
    | .command | .pitchCommand | .keyword => return some (← readCommand deeper k t)
    | _ => return none

def readItem (deeper : Deeper) (t : Token) : Reading (Option ItemId) := do
  match t.kind with
  | .lily k => readLily deeper k t
  | .scheme .stringQuotedStart => return some (← readString t)
  | _ => return none

/-- Reads what starts with a token, with at most `n` levels of items. -/
def read : Nat → Deeper
  | 0, _, _ => return none
  | n + 1, .item, t => readItem (read n) t
  | n + 1, .markup, t => readMarkup (read n) t
  | n + 1, .scheme, t => readSchemePart (read n) t

def readScore (depth : Nat) : Reading Unit := do
  appendAll Tree.root (← readAll (read depth))

end Reading

/-- The tree of scanned tokens. Items nested deeper than the given depth are left out, and pitch
names are read in the given language until the score switches to another one. -/
def Tree.ofTokens (tokens : List ScannedToken) (language : String) (depth : Nat) : Tree :=
  ((Reading.readScore depth).run (.start tokens.toArray language)).2.tree

end ScoreText
