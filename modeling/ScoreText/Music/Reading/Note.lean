import ScoreText.Music.Reading.Value
/-!
Reading notes, durations, chords and lists of music.
-/
namespace ScoreText.Reading

def isDuration (t : Token) : Bool :=
  match t.kind with
  | .lily k => k.isDuration
  | _ => false

/-- Reads the tokens of a written duration behind those already taken. A second length starts
another duration. -/
def readDurationTokens (taken : List Token) : Reading (List Token) :=
  loop (fun ts => do
    match ← next with
    | none => return .done ts
    | some t =>
      if isDuration t then
        if !ts.isEmpty && t.kind == .lily .length then
          pushBack
          return .done ts
        else return .more (ts ++ [t])
      else if t.kind.isSpace then return .more ts
      else
        pushBack
        return .done ts) taken

/-- Gives an item its duration: the one written behind it, whose length may have been taken
already, or else the one before it. -/
def readDuration (id : ItemId) (length : Option Token) : Reading Unit := do
  match ← readDurationTokens length.toList with
  | [] => pure ()
  | first :: rest =>
    let written ← addFor .writtenDuration first
    setTokens written rest
    append id written
    if let some d := Duration.ofParts? ((first :: rest).map (·.text.toList)) then
      modify fun r => { r with duration := d }
  let duration := (← get).duration
  update id fun i => { i with duration := some duration }

structure NoteParts where
  pitch : Pitch
  octave : Option Token
  accidental : Option Token
  check : Option Token

/-- Reads octave marks, accidental signs and an octave check. The check ends the note. -/
def readNoteParts (p : NoteParts) : Reading NoteParts :=
  loop (fun p => do
    match ← next with
    | none => return .done p
    | some t =>
      match t.kind with
      | .lily .octave =>
        let pitch := { p.pitch with octave := octaveOfMarks t.text.toList }
        return .more { p with pitch, octave := some t }
      | .lily .accidentalReminder | .lily .accidentalCautionary =>
        let pitch := { p.pitch with accidental := t.text }
        return .more { p with pitch, accidental := some t }
      | .lily .octaveCheck =>
        let pitch := { p.pitch with octaveCheck := some (octaveOfMarks t.text.toList) }
        return .done { p with pitch, check := some t }
      | k =>
        if k.isSpace then return .more p
        else
          pushBack
          return .done p) p

def addNote (t : Token) : Reading (Option (ItemId × Pitch)) := do
  match readPitch? (← get).language t.text with
  | none => return none
  | some (note, alter) =>
    let id ← addFor .note t
    return some (id, .plain note alter)

/-- Reads a duration behind an item unless a chord or a pitch command holds it. -/
def readOwnDuration (inPitchCommand : Bool) (id : ItemId) : Reading (Option ItemId) := do
  if !(← get).inChord && !inPitchCommand then readDuration id none
  return some id

def readMusicItem (k : Lily.Kind) (t : Token) : Reading (Option ItemId) := do
  let inPitchCommand := (← get).current?.any (·.region == .lily .pitchCommand)
  match k with
  | .note =>
    match ← addNote t with
    | none => return none
    | some (id, pitch) =>
      let p ← readNoteParts ⟨pitch, none, none, none⟩
      setDetails id (.note p.pitch p.octave p.accidental p.check)
      readOwnDuration inPitchCommand id
  | .rest => readOwnDuration inPitchCommand (← addFor .rest t)
  | .q => readOwnDuration inPitchCommand (← addFor .q t)
  | _ => readOwnDuration inPitchCommand (← addFor .skip t)

/-- Reads a duration on its own, which is a note without a pitch. -/
def readUnpitched (t : Token) : Reading ItemId := do
  let id ← add .unpitched t.start none
  readDuration id (some t)
  return id

/-- Reads a chord. There is none within a chord. -/
def readChord (deeper : Deeper) (t : Token) : Reading (Option ItemId) := do
  if (← get).inChord then return none
  modify fun r => { r with inChord := true }
  let id ← addFor .chord t
  readRegionInto deeper id
  modify fun r => { r with inChord := false }
  readDuration id none
  return some id

def opensList : TokenKind → Bool
  | .lily .openBracket | .lily .sequentialStart | .lily .openSimultaneous
  | .lily .simultaneousStart => true
  | _ => false

def addList (t : Token) (simultaneous : Bool) (bracket : Option Token) : Reading ItemId := do
  let id ← addFor .musicList t
  setDetails id (.list simultaneous)
  addToken id bracket
  return id

/-- Starts a list of music, and tells whether its items follow. The command for a sequential or a
simultaneous list is a plain keyword unless a bracket follows it. -/
def startList (t : Token) : Reading (Option (ItemId × Bool)) := do
  if opensList t.kind then
    return some (← addList t (t.text == "<<") none, true)
  else if t.kind == .lily .simultaneousOrSequentialCommand then
    match ← free nextItem with
    | none => return none
    | some bracket =>
      if opensList bracket.kind then
        let simultaneous := t.text == "\\simultaneous" || bracket.text == "<<"
        return some (← addList t simultaneous (some bracket), true)
      else
        pushBack
        return some (← addFor .keyword t, false)
  else return none

def readList (deeper : Deeper) (t : Token) : Reading (Option ItemId) := do
  match ← startList t with
  | none => return none
  | some (id, follows) =>
    if follows then readRegionInto deeper id
    return some id

def isChordItem (t : Token) : Bool :=
  match t.kind with
  | .lily k => k.isChordItem
  | _ => false

def readChordSpecifier (t : Token) : Reading ItemId := do
  let id ← add .chordSpecifier t.start none
  append id (← addFor .chordItem t)
  let _ ← bounded <| loop (fun _ => do
    match ← next with
    | none => return .done ()
    | some t =>
      if isChordItem t then append id (← addFor .chordItem t)
      else if t.kind == .lily .note then
        if let some (note, pitch) ← addNote t then
          setDetails note (.note pitch none none none)
          append id note
      return .more ()) ()
  return id

def readTremolo (t : Token) : Reading ItemId := do
  let id ← addFor .tremolo t
  match ← free next with
  | none => pure ()
  | some t =>
    if t.kind == .lily .tremoloDuration then
      append id (← addFor .writtenDuration t)
      update id fun i => { i with duration := Duration.read? t.text }
    else pushBack
  return id

def followsDirection (t : Token) : Bool :=
  match t.kind with
  | .lily k =>
    k == .stringQuotedStart || k.isMarkupStart || k.isArticulation || k.isSlur || k.isBeam ||
      k == .dynamic || k == .tweak || (k == .command && t.text == "\\tag")
  | _ => false

def readDirection (deeper : Deeper) (t : Token) : Reading ItemId := do
  let id ← addFor .postEvent t
  setDetails id <| .direction <| match t.text.toList.head? with
    | some '_' => -1
    | some '^' => 1
    | _ => 0
  match ← free nextItem with
  | none => pure ()
  | some t =>
    if followsDirection t then appendIf id (← free (deeper .item t)) else pushBack
  return id

def addSpan (kind : ItemKind) (t : Token) (starts : Bool) : Reading ItemId := do
  let id ← addFor kind t
  setDetails id (.span starts)
  return id

end ScoreText.Reading
