import ScoreText.Music.Reading.Value
/-!
Reading assignments, blocks and the commands that change properties.
-/
namespace ScoreText.Reading

def isEqualSign (t : Token) : Bool :=
  t.kind == .lily .equalSign || t.kind == .lily .equalSignSetOverride

def isOne (ks : List Lily.Kind) (t : Token) : Bool :=
  match t.kind with
  | .lily k => ks.contains k
  | _ => false

/-- Reads the value of an assignment. A Scheme expression may stand before the equals sign; what
has a second one there is no assignment, and the first one is an item of its own. -/
def readAssignment (deeper : Deeper) (t : Token) : Reading (Option ItemId) := do
  let id ← addFor .assignment t
  loop (fun _ => do
    match ← free nextItem with
    | none => return .done none
    | some t =>
      if t.kind == .lily .equalSign then
        setTokens id [t]
        appendIf id (← free (readOne deeper))
        return .done (some id)
      else if t.kind == .lily .schemeStart then
        match (← tree).find? id .scheme with
        | some scheme =>
          pushBack
          return .done (some scheme)
        | none =>
          append id (← readScheme deeper t)
          return .more none
      else
        pushBack
        return .done none) none

/-- Reads an assignment to a variable of a block. A unit may follow its value. -/
def readVariable (deeper : Deeper) (t : Token) : Reading (Option ItemId) := do
  match ← readAssignment deeper t with
  | none => return none
  | some id =>
    match ← free nextItem with
    | none => pure ()
    | some t =>
      if t.kind == .lily .unit then append id (← addFor .command t) else pushBack
    return some id

/-- Reads a block in brackets into an item, and tells whether there is one. -/
def readBlockInto (deeper : Deeper) (id : ItemId) : Reading Bool :=
  loop (fun _ => do
    match ← next with
    | none => return .done false
    | some t =>
      if opensBlock t then
        setTokens id [t]
        readRegionInto deeper id
        return .done true
      else if t.kind.isSpace then return .more false
      else
        pushBack
        return .done false) false

/-- Reads a block. Instead of one, a variable may hold the block of settings for a context. -/
def readBlock (deeper : Deeper) (kind : ItemKind) (t : Token) : Reading ItemId := do
  let id ← addFor kind t
  if !(← readBlockInto deeper id) && kind == .withBlock then
    appendIf id (← readOne deeper)
  return id

def readSet (deeper : Deeper) (t : Token) : Reading ItemId := do
  let id ← addFor .set t
  let _ ← loop (fun ts => do
    match ← nextItem with
    | none => return .done ts
    | some t =>
      if isEqualSign t then
        setTokens id (ts ++ [t])
        appendIf id (← readOne deeper)
        return .done ts
      else return .more (ts ++ [t])) []
  return id

def readWhile (ks : List Lily.Kind) (act : Token → Reading Unit) : Reading (Option Token) :=
  loop (fun _ => do
    match ← nextItem with
    | none => return .done none
    | some t =>
      if isOne ks t then
        act t
        return .more none
      else return .done (some t)) none

def readUnset (t : Token) : Reading ItemId := do
  let id ← addFor .unset t
  let _ ← bounded do
    let stop ← readWhile [.contextName, .dotSetOverride, .contextProperty, .name] fun t =>
      addToken id (some t)
    if stop.isSome then pushBack
  return id

def addPathStep (id : ItemId) (t : Token) : Reading Unit := do
  append id (← addFor .pathItem t)

def readOverride (deeper : Deeper) (t : Token) : Reading ItemId := do
  let id ← addFor .override t
  let _ ← bounded <| loop (fun _ => do
    match ← nextItem with
    | none => return .done ()
    | some t =>
      if isOne [.stringQuotedStart, .schemeStart] t then
        appendIf id (← free (deeper .item t))
        return .more ()
      else if isEqualSign t then
        setTokens id [t]
        appendIf id (← free (readOne deeper))
        return .done ()
      else
        addPathStep id t
        return .more ()) ()
  return id

/-- Whether the path read so far names a property of a graphical object. -/
def namesProperty (t : Tree) (id : ItemId) : Bool :=
  (t.children id).any fun c => (t.item c).token.any (·.kind == .lily .grobProperty)

def readRevert (deeper : Deeper) (t : Token) : Reading ItemId := do
  let id ← addFor .revert t
  let _ ← bounded do
    let path := [.contextName, .dotSetOverride, .grobName, .grobProperty, .name]
    match ← readWhile path (addPathStep id) with
    | none => pure ()
    | some t =>
      if t.kind == .lily .schemeStart && !namesProperty (← tree) id then
        append id (← readScheme deeper t)
      else pushBack
  return id

def readTweak (deeper : Deeper) (t : Token) : Reading ItemId := do
  let id ← addFor .tweak t
  let _ ← bounded do
    let path := [.grobName, .dotSetOverride, .grobProperty, .name]
    match ← readWhile path (addPathStep id) with
    | none => pure ()
    | some t =>
      if t.kind == .lily .schemeStart && ((← tree).children id).isEmpty then
        append id (← readScheme deeper t)
      else pushBack
  appendIf id (← free (readOne deeper))
  return id

end ScoreText.Reading
