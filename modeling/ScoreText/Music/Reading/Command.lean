import ScoreText.Music.Reading.Note
import ScoreText.Music.Reading.Setting
import ScoreText.Music.Value
/-!
Reading commands that take arguments.
-/
namespace ScoreText.Reading

def readArguments (deeper : Deeper) (kind : ItemKind) (t : Token) (count : Nat) :
    Reading ItemId := do
  let id ← addFor kind t
  readArgumentsInto deeper id count
  return id

/-- Reads items into an item: at most `notes` notes and one item behind them. -/
def readNotesAndMusic (deeper : Deeper) (kind : ItemKind) (t : Token) (notes : Nat) :
    Reading ItemId := do
  let id ← addFor kind t
  let _ ← loop (fun n => do
    match ← readOne deeper with
    | none => return .done n
    | some child =>
      append id child
      if n > 0 && (← tree).kind child == .note then return .more (n - 1) else return .done n) notes
  return id

/-- Reads grace notes behind music. They get an item of their own. -/
def readAfterGrace (deeper : Deeper) (t : Token) : Reading ItemId := do
  let id ← readArguments deeper .afterGrace t 2
  match (← tree).children id with
  | [_, second] =>
    let grace ← add .grace ((← tree).item second).position none
    append grace second
    append id grace
  | _ => pure ()
  return id

def readParts (deeper : Deeper) (t : Token) : Reading ItemId := do
  let id ← addFor .partCombine t
  appendIf id (← free (readOne deeper))
  appendIf id (← free (readOne deeper))
  return id

def readAlternative (deeper : Deeper) (t : Token) : Reading ItemId := do
  let id ← addFor .alternative t
  appendIf id (← readOne deeper)
  return id

def readContextId (found : Option Attribute) : Reading (Option Attribute) :=
  loop (fun found => do
    match ← next with
    | none => return .done found
    | some t =>
      if t.kind == .lily .stringQuotedStart then
        return .done (some (.item (← readString t)))
      else if t.kind == .lily .name then return .done (some (.token t))
      else if t.kind.isSpace then return .more found
      else
        pushBack
        return .done found) found

def readContext : Reading (Option Token × Option Attribute) := do
  match ← nextItem with
  | none => return (none, none)
  | some t =>
    if isOne [.contextName, .name] t then
      let contextId ← loop (fun found => do
        match ← next with
        | none => return .done found
        | some t =>
          if t.kind == .lily .equalSign then return .more (← readContextId found)
          else if t.kind.isSpace then return .more found
          else
            pushBack
            return .done found) none
      return (some t, contextId)
    else
      pushBack
      return (none, none)

/-- Reads settings in blocks and the music behind them into an item. -/
def readSettingsAndMusicInto (deeper : Deeper) (id : ItemId) : Reading Unit :=
  loop (fun _ => do
    match ← readOne deeper with
    | none => return .done ()
    | some child =>
      append id child
      if (← tree).kind child == .withBlock then return .more () else return .done ()) ()

/-- Reads a context and the music in it. A change of context has no music of its own. -/
def readTranslator (deeper : Deeper) (t : Token) : Reading ItemId := do
  let isChange := t.text == "\\change"
  let id ← addFor (if isChange then .change else .context) t
  let ((context, contextId), _) ← bounded readContext
  setDetails id (.translator context contextId)
  if !isChange then readSettingsAndMusicInto deeper id
  return id

def readClef (t : Token) : Reading ItemId := do
  let id ← addFor .clef t
  let specifier ← match ← nextItem with
    | none => pure none
    | some t =>
      if t.kind == .lily .clefSpecifier then pure (some (.token t))
      else if t.kind == .lily .stringQuotedStart then pure (some (.item (← readString t)))
      else
        pushBack
        pure none
  setDetails id (.clef specifier)
  return id

structure TempoParts where
  hasText : Bool
  hasEqualSign : Bool
  /-- the last token if it was of no use -/
  unused : Option Token

def startsTempoText (t : Token) : Bool :=
  match t.kind with
  | .lily k => k == .schemeStart || k == .stringQuotedStart || k.isMarkupStart
  | _ => false

/-- Reads a token of a tempo: a text and a duration before the equals sign, numbers behind it. -/
def readTempoPart (deeper : Deeper) (id : ItemId) (p : TempoParts) (t : Token) :
    Reading TempoParts := do
  if !p.hasEqualSign then
    if !p.hasText && startsTempoText t then
      appendIf id (← free (deeper .item t))
      return { p with hasText := true, unused := none }
    else if t.kind == .lily .length then
      readDuration id (some t)
      return { p with unused := none }
    else if t.kind == .lily .equalSign then
      setTokens id [t]
      return { p with hasEqualSign := true, unused := none }
    else return { p with unused := some t }
  else if isOne [.integerValue, .schemeStart] t then
    appendIf id (← free (deeper .item t))
    return { p with unused := none }
  else if t.kind == .lily .tempoSeparator then
    addToken id (some t)
    return { p with unused := none }
  else return { p with unused := some t }

def readTempo (deeper : Deeper) (t : Token) : Reading ItemId := do
  let id ← addFor .tempo t
  let _ ← bounded do
    let p ← loop (fun p => do
      match ← next with
      | none => return .done p
      | some t => return .more (← readTempoPart deeper id p t)) ⟨false, false, none⟩
    if p.unused.any fun t => !t.kind.isSpace && !t.kind.isComment then pushBack
  return id

structure RepeatParts where
  specifier : Option Attribute
  count : Option Attribute

def readRepeatedMusic (deeper : Deeper) (id : ItemId) : Reading Unit := do
  appendIf id (← readOne deeper)
  match ← nextItem with
  | none => pure ()
  | some t =>
    if t.kind == .lily .command && t.text == "\\alternative" then
      append id (← readAlternative deeper t)
    else pushBack

/-- Reads a token of a repeat: its kind and its count, then the music. Scheme expressions may stand
for the kind and for the count. -/
def readRepeatPart (deeper : Deeper) (id : ItemId) (p : RepeatParts) (t : Token) :
    Reading (Turn RepeatParts) := do
  if isOne [.repeatSpecifier, .repeatStringSpecifier] t then
    return .more { p with specifier := some (.token t) }
  else if t.kind == .lily .stringQuotedStart && p.specifier.isNone then
    return .more { p with specifier := some (.item (← readString t)) }
  else if t.kind == .lily .repeatCount then return .more { p with count := some (.token t) }
  else if t.kind == .lily .schemeStart then
    let scheme ← readScheme deeper t
    if p.specifier.isNone then return .more { p with specifier := some (.item scheme) }
    else if p.count.isNone then return .more { p with count := some (.item scheme) }
    else
      append id scheme
      return .done p
  else
    pushBack
    readRepeatedMusic deeper id
    return .done p

def readRepeat (deeper : Deeper) (t : Token) : Reading ItemId := do
  let id ← addFor .repetition t
  let p ← loop (fun p => do
    match ← nextItem with
    | none => return .done p
    | some t => readRepeatPart deeper id p t) (⟨none, none⟩ : RepeatParts)
  setDetails id (.repetition p.specifier p.count)
  return id

def factorOf (t : Tree) (value : ItemId) : Option Fraction :=
  match t.kind value with
  | .number => (t.number? value).bind (·.fraction?)
  | .scheme =>
    (((t.schemePair? value).filter fun p => p.2 != 0).map fun p => Fraction.ofInts p.1 p.2).or
      (t.schemeRatio? value)
  | _ => none

structure Ratio where
  numerator : Int
  denominator : Int
  scaling : Fraction

/-- Reads the ratio of a tuplet or of scaled music. A tuplet names the ratio the other way round,
and the length of a group may follow it. -/
def readRatio (id : ItemId) (isTuplet : Bool) : Reading Ratio :=
  loop (fun ratio => do
    match ← next with
    | none => return .done ratio
    | some t =>
      if t.kind == .lily .fraction then
        append id (← addFor .number t)
        let ratio : Ratio := match Fraction.readInts? t.text with
          | none => ratio
          | some (a, b) =>
            { numerator := a
              denominator := b
              scaling :=
                if a = 0 || b = 0 then ratio.scaling
                else if isTuplet then Fraction.ofInts b a
                else Fraction.ofInts a b }
        return if isTuplet then .more ratio else .done ratio
      else if isTuplet && t.kind == .lily .length then
        readDuration id (some t)
        return .done ratio
      else if t.kind.isSpace then return .more ratio
      else
        pushBack
        return .done ratio) ⟨0, 0, 1⟩

def readFactor (deeper : Deeper) (id : ItemId) : Reading Ratio := do
  match ← readOne deeper with
  | none => return ⟨0, 0, 1⟩
  | some value =>
    append id value
    return ⟨0, 0, (factorOf (← tree) value).getD 1⟩

def readScaler (deeper : Deeper) (t : Token) : Reading ItemId := do
  let id ← addFor .scaler t
  let ratio ←
    if t.text == "\\scaleDurations" then readFactor deeper id
    else readRatio id (t.text == "\\tuplet")
  setDetails id (.scaler ratio.numerator ratio.denominator ratio.scaling)
  appendIf id (← readOne deeper)
  return id

structure MeterParts where
  numerator : Int
  fraction : Fraction
  beatStructure : Option ItemId

/-- Reads a time signature, which a Scheme expression for the beats may precede. -/
def readTimeSignature (deeper : Deeper) (t : Token) : Reading ItemId := do
  let id ← addFor .timeSignature t
  let p ← loop (fun (p : MeterParts) => do
    match ← nextItem with
    | none => return .done p
    | some t =>
      if t.kind == .lily .schemeStart then
        return .more { p with beatStructure := some (← readScheme deeper t) }
      else if t.kind == .lily .fraction then
        return .done <| match Fraction.readInts? t.text with
          | none => p
          | some (a, b) =>
            if b = 0 then p else { p with numerator := a, fraction := Fraction.ofInts 1 b }
      else
        pushBack
        return .done p) ⟨4, Fraction.ofInts 1 4, none⟩
  setDetails id (.timeSignature p.numerator p.fraction p.beatStructure)
  return id

def setLanguage (language : String) : Reading Unit :=
  modify fun r => { r with language }

/-- Reads the command that switches the language of pitch names. An unknown language changes
nothing. -/
def readLanguage (deeper : Deeper) (t : Token) : Reading ItemId := do
  let id ← addFor .language t
  let language ← match ← readOne deeper with
    | none => pure none
    | some name =>
      append id name
      if (← tree).kind name == .string then
        let value := (← tree).unquoted name
        if PitchNames.isLanguage value then setLanguage value
        pure (some value)
      else pure none
  setDetails id (.language language)
  return id

def languageOfFile? (file : String) : Option String :=
  let cs := file.toList.reverse
  if ".ly".toList.reverse.isPrefixOf cs then
    some (String.ofList (cs.drop 3).reverse) |>.filter PitchNames.isLanguage
  else none

/-- Reads an inclusion. The name of a file of pitch names switches the language instead. -/
def readInclusion (deeper : Deeper) (t : Token) : Reading ItemId := do
  let name ← readOne deeper
  let before ← tree
  let file := (name.filter (before.kind · == .string)).map before.unquoted
  match file.bind languageOfFile? with
  | some language =>
    let id ← addFor .language t
    setLanguage language
    setDetails id (.language (some language))
    appendIf id name
    return id
  | none =>
    let id ← addFor .inclusion t
    appendIf id name
    return id

def readCommand (deeper : Deeper) (k : Lily.Kind) (t : Token) : Reading ItemId :=
  match t.text with
  | "\\relative" => readNotesAndMusic deeper .relative t 1
  | "\\absolute" => readArguments deeper .absolute t 1
  | "\\transpose" => readNotesAndMusic deeper .transpose t 2
  | "\\key" => readArguments deeper .keySignature t 2
  | "\\times" | "\\tuplet" | "\\scaleDurations" => readScaler deeper t
  | "\\appendToTag" | "\\pushToTag" => free (readArguments deeper .tag t 3)
  | "\\tag" | "\\keepWithTag" | "\\removeWithTag" => free (readArguments deeper .tag t 2)
  | "\\grace" | "\\acciaccatura" | "\\appoggiatura" | "\\slashedGrace" =>
    readArguments deeper .grace t 1
  | "\\afterGrace" => readAfterGrace deeper t
  | "\\alternative" => readAlternative deeper t
  | "\\time" => readTimeSignature deeper t
  | "\\partial" => do
    let id ← addFor .partialMeasure t
    readDuration id none
    return id
  | "\\stringTuning" => readArguments deeper .stringTuning t 1
  | "\\partCombine" | "\\partcombine" => readParts deeper t
  | "\\language" => readLanguage deeper t
  | "\\include" => readInclusion deeper t
  | "\\version" => readArguments deeper .version t 1
  | _ => addFor (if k == .keyword then .keyword else .command) t

end ScoreText.Reading
