import ScoreText.Music.Reading.Note
import ScoreText.Music.Reading.Setting
/-!
Reading lyrics. Lists of lyrics may be nested without a limit.
-/
namespace ScoreText.Reading

/-- Whether a token starts a word of lyrics that is written as a string or as markup. -/
def startsLyricMarkup (t : Token) : Bool :=
  match t.kind with
  | .lily k => k == .stringQuotedStart || k.isMarkupStart
  | _ => false

/-- Reads an item of lyrics in lists nested at most `n` deep: a word with its duration, a sign
between words, or a list of lyrics. -/
def readLyric (deeper : Deeper) : Nat → Token → Reading (Option ItemId)
  | 0, _ => do
    modify Reader.stall
    return none
  | n + 1, t => do
    if startsLyricMarkup t then
      let id ← add .lyricText t.start none
      appendIf id (← free (deeper .item t))
      free (readDuration id none)
      return some id
    else if t.kind == .lily .lyricText then
      let id ← addFor .lyricText t
      free (readDuration id none)
      return some id
    else if isOne [.lyricHyphen, .lyricExtender, .lyricSkip, .lyricTie] t then
      return some (← addFor .lyricItem t)
    else
      match ← startList t with
      | none => return none
      | some (id, follows) =>
        if follows then
          let (_, last) ← bounded <| loop (fun _ => do
            match ← nextItem with
            | none => return .done ()
            | some t =>
              match ← readLyric deeper n t with
              | some child => append id child
              | none => appendIf id (← free (deeper .item t))
              return .more ()) ()
          addToken id last
        return some id

def readLyricOrItem (deeper : Deeper) (t : Token) : Reading (Option ItemId) := do
  match ← readLyric deeper ((← get).left + 1) t with
  | some id => return some id
  | none => free (deeper .item t)

/-- Reads the name of the context whose rhythm the lyrics follow. -/
def readLyricContext (deeper : Deeper) : Reading (Option Attribute) := do
  match ← nextItem with
  | none => return none
  | some t =>
    if t.kind == .lily .name then return some (.token t)
    else if isOne [.stringQuotedStart, .schemeStart] t then
      return (← free (deeper .item t)).map .item
    else
      pushBack
      return none

def readLyricMode (deeper : Deeper) (t : Token) : Reading ItemId := do
  let follows := t.text == "\\lyricsto"
  let id ← addFor (if follows then .lyricsTo else .lyricMode) t
  if follows then
    setDetails id (.translator none (← readLyricContext deeper))
  let _ ← bounded do
    match ← nextItem with
    | none => pure ()
    | some t => appendIf id (← readLyricOrItem deeper t)
  return id

end ScoreText.Reading
