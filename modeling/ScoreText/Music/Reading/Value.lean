import ScoreText.Music.Reading.Reader
/-!
Reading strings, Scheme expressions and markup.
-/
namespace ScoreText.Reading

/-- Reads a string behind its opening quote. The closing quote is kept with the other tokens. -/
def readString (t : Token) : Reading ItemId := do
  let id ← addFor .string t
  let (tokens, _) ← bounded <| loop (fun ts => do
    match ← next with
    | none => return .done ts
    | some t => return .more (ts ++ [t])) []
  setTokens id tokens
  return id

/-- Reads the next part of a Scheme expression. Tokens that start none are left out. -/
def readPart (deeper : Deeper) : Reading (Option ItemId) :=
  loop (fun _ => do
    match ← next with
    | none => return .done none
    | some t =>
      match ← deeper .scheme t with
      | some id => return .done (some id)
      | none => return .more none) none

def readPartsInto (deeper : Deeper) (id : ItemId) : Reading Unit :=
  loop (fun _ => do
    match ← next with
    | none => return .done ()
    | some t =>
      appendIf id (← deeper .scheme t)
      return .more ()) ()

/-- Reads an item with one Scheme expression behind the sign that starts it. -/
def readQuoting (deeper : Deeper) (kind : ItemKind) (t : Token) : Reading ItemId := do
  let id ← addFor kind t
  let (part, _) ← bounded (readPart deeper)
  appendIf id part
  return id

def readScheme (deeper : Deeper) (t : Token) : Reading ItemId :=
  readQuoting deeper .scheme t

def readSchemePart (deeper : Deeper) (t : Token) : Reading (Option ItemId) := do
  match t.kind with
  | .scheme .quote => return some (← readQuoting deeper .schemeQuote t)
  | .scheme .openParen | .scheme .vectorStart =>
    let id ← addFor .schemeList t
    let (_, last) ← bounded (readPartsInto deeper id)
    addToken id last
    return some id
  | .scheme .stringQuotedStart => return some (← readString t)
  | .scheme .lilyPondStart =>
    let id ← addFor .schemeLily t
    readRegionInto deeper id
    return some id
  | .scheme k => if k.isAtom then return some (← addFor .schemeItem t) else return none
  | _ => return none

/-- Reads the arguments of a markup command or the markups of a list into an item. The closing
bracket of a list is kept. -/
def readMarkupsInto (deeper : Deeper) (id : ItemId) (list : Bool) : Reading Unit := do
  let _ ← bounded <| loop (fun _ => do
    match ← next with
    | none => return .done ()
    | some t =>
      match ← deeper .markup t with
      | some child => append id child
      | none => if list && t.kind == .lily .closeBracketMarkup then setTokens id [t]
      return .more ()) ()

def opensBlock (t : Token) : Bool :=
  t.kind == .lily .openBracket || t.kind == .lily .sequentialStart

def readMarkupScore (deeper : Deeper) (t : Token) : Reading ItemId := do
  let id ← addFor .markupScore t
  let _ ← bounded <| loop (fun _ => do
    match ← next with
    | none => return .done ()
    | some t =>
      if opensBlock t then
        setTokens id [t]
        readRegionInto deeper id
        return .done ()
      else return .more ()) ()
  return id

def readMarkup (deeper : Deeper) (t : Token) : Reading (Option ItemId) := do
  match t.kind with
  | .lily .schemeStart => return some (← readScheme deeper t)
  | .lily .stringQuotedStart => return some (← readString t)
  | .lily .markupScore => return some (← readMarkupScore deeper t)
  | .lily .markupCommand =>
    let id ← addFor .markupCommand t
    if Lily.Words.markupArguments? (Lily.commandName t.text.toList) != some 0 then
      readMarkupsInto deeper id false
    return some id
  | .lily .markupUserCommand => return some (← addFor .markupUserCommand t)
  | .lily .openBracketMarkup =>
    let id ← addFor .markupList t
    readMarkupsInto deeper id true
    return some id
  | .lily .markupWord => return some (← addFor .markupWord t)
  | _ => return none

end ScoreText.Reading
