import ScoreText.Music.Tree
/-!
Reading scanned tokens into a tree.

The whole text is scanned first. The reader walks along the tokens and can give back the last one.
It takes them from a source: a free source has all tokens that remain, and a bounded one ends where
the scanner leaves the region that was open when the source was opened.
-/
namespace ScoreText

/-- A token with the number of open regions and the top region after it. -/
structure ScannedToken where
  token : Token
  depth : Nat
  region : Region
  deriving DecidableEq, Repr

def scanMusic (text : String) : List ScannedToken :=
  ((State.ofMode .lilypond).scan text 0).map fun (t, s) => ⟨t, s.depth, s.top.region⟩

/-- A source that ends with a region. -/
structure Bound where
  /-- the number of open regions below which the source ends -/
  depth : Nat
  started : Bool
  finished : Bool
  /-- the last token taken -/
  last : Option Token
  deriving DecidableEq, Repr

inductive Source where
  | free
  | bounded (b : Bound)
  deriving DecidableEq, Repr

/-- How reading went. Nothing that is read depends on it. -/
structure Course where
  /-- the places of the tokens that were given back, the last one first -/
  givenBack : List Nat
  /-- whether some loop was given up, since a turn of it took no token but was not the last one -/
  stalled : Bool
  deriving DecidableEq, Repr

/-- The tokens, the place among them, and what has been read. -/
structure Reader where
  tokens : Array ScannedToken
  /-- the number of tokens taken -/
  index : Nat
  inside : index ≤ tokens.size
  /-- whether the last token is given back -/
  pushed : Bool
  source : Source
  tree : Tree
  /-- the language of pitch names -/
  language : String
  inChord : Bool
  /-- the duration of notes that have none of their own -/
  duration : Duration
  course : Course

abbrev Reading := StateM Reader

/-- What a turn of a loop asks for. -/
inductive Turn (α : Type) where
  | done (a : α)
  | more (a : α)

/-- What a loop has come to so far. -/
def Turn.value {α : Type} : Turn α → α
  | done a => a
  | more a => a

namespace Reader

def start (tokens : Array ScannedToken) (language : String) : Reader :=
  ⟨tokens, 0, Nat.zero_le _, false, .free, .start, language, false, .quarter, ⟨[], false⟩⟩

/-- The number of tokens to come, one that was given back included. -/
def left (r : Reader) : Nat :=
  r.tokens.size - r.index + if r.pushed then 1 else 0

def current? (r : Reader) : Option ScannedToken :=
  if start : r.index = 0 then none
  else
    have := r.inside
    some r.tokens[r.index - 1]

def depth (r : Reader) : Nat :=
  (r.current?.map (·.depth)).getD 1

/-- Takes the next token, whatever the source. -/
def pull (r : Reader) : Option Token × Reader :=
  if r.pushed then (r.current?.map (·.token), { r with pushed := false })
  else if more : r.index < r.tokens.size then
    (some r.tokens[r.index].token, { r with index := r.index + 1, inside := more })
  else (none, r)

/-- Makes the last token the next one again. -/
def giveBack (r : Reader) : Reader :=
  { r with
    pushed := true
    course := { r.course with givenBack := (r.index - 1) :: r.course.givenBack } }

def stall (r : Reader) : Reader :=
  { r with course := { r.course with stalled := true } }

/-- Whether a bounded source has come to its end. A token that was given back is still its own. -/
def atEnd (r : Reader) (b : Bound) : Bool :=
  b.started && r.depth < b.depth && !r.pushed

def next (r : Reader) : Option Token × Reader :=
  match r.source with
  | .free => r.pull
  | .bounded b =>
    if b.finished then (none, r)
    else if r.atEnd b then (none, { r with source := .bounded { b with finished := true } })
    else
      match r.pull with
      | (some t, r) =>
        (some t, { r with source := .bounded { b with started := true, last := some t } })
      | (none, r) => (none, { r with source := .bounded { b with finished := true } })

/-- Repeats a step until it is done. A loop that would go on without a token taken is given up. -/
def repeated {α : Type} (step : α → Reading (Turn α)) (a : α) (r : Reader) : α × Reader :=
  match (step a).run r with
  | (.done a, r') => (a, r')
  | (.more a, r') => if r'.left < r.left then repeated step a r' else (a, r'.stall)
  termination_by r.left

end Reader

namespace Reading

def loop {α : Type} (step : α → Reading (Turn α)) (a : α) : Reading α :=
  Reader.repeated step a

def next : Reading (Option Token) :=
  Reader.next

def pushBack : Reading Unit :=
  modify fun r => if r.index > 0 then r.giveBack else r

/-- Takes the next token that is neither blank nor comment. -/
def nextItem : Reading (Option Token) :=
  loop (fun _ => do
    match ← next with
    | none => return .done none
    | some t =>
      if t.kind.isSpace || t.kind.isComment then return .more none else return .done (some t))
    none

/-- Reads from another source and comes back to this one. -/
def within {α : Type} (source : Source) (act : Reading α) : Reading α := do
  let outer := (← get).source
  modify fun r => { r with source }
  let a ← act
  modify fun r => { r with source := outer }
  return a

def free {α : Type} (act : Reading α) : Reading α :=
  within .free act

/-- Reads up to the end of the region that is open now, and gives the last token of it. -/
def bounded {α : Type} (act : Reading α) : Reading (α × Option Token) := do
  let depth := (← get).depth
  within (.bounded ⟨depth, false, false, none⟩) do
    let a ← act
    match (← get).source with
    | .free => return (a, none)
    | .bounded b => return (a, b.last)

def tree : Reading Tree := do
  return (← get).tree

def updateTree (f : Tree → Tree) : Reading Unit :=
  modify fun r => { r with tree := f r.tree }

def update (id : ItemId) (f : Item → Item) : Reading Unit :=
  updateTree (·.update id f)

def add (kind : ItemKind) (position : Nat) (token : Option Token) : Reading ItemId := do
  let id := (← tree).size
  updateTree (·.push (.single kind position token))
  return id

def addFor (kind : ItemKind) (t : Token) : Reading ItemId :=
  add kind t.start (some t)

def append (parent child : ItemId) : Reading Unit :=
  updateTree (·.append parent child)

/-- Makes an item the last child of another one if there is one. -/
def appendIf (parent : ItemId) (child : Option ItemId) : Reading Unit :=
  child.forM (append parent)

def appendAll (parent : ItemId) (children : List ItemId) : Reading Unit :=
  children.forM (append parent)

def setDetails (id : ItemId) (details : Details) : Reading Unit :=
  update id fun i => { i with details }

def setTokens (id : ItemId) (tokens : List Token) : Reading Unit :=
  update id fun i => { i with tokens }

def addToken (id : ItemId) (t : Option Token) : Reading Unit :=
  update id fun i => { i with tokens := i.tokens ++ t.toList }

end Reading

/-- What a token is read as. -/
inductive Form where
  /-- an item of music or of a block -/
  | item
  | markup
  /-- a part of a Scheme expression -/
  | scheme
  deriving DecidableEq, Repr

/-- Reads what starts with a token, one level deeper than its caller. -/
abbrev Deeper := Form → Token → Reading (Option ItemId)

namespace Reading

def readAll (deeper : Deeper) : Reading (List ItemId) := do
  let ids ← loop (fun ids => do
    match ← nextItem with
    | none => return .done ids
    | some t => return .more ((← deeper .item t).toList ++ ids)) []
  return ids.reverse

/-- Reads the next item of the source. Tokens that start no item are left out. -/
def readOne (deeper : Deeper) : Reading (Option ItemId) :=
  loop (fun _ => do
    match ← nextItem with
    | none => return .done none
    | some t =>
      match ← deeper .item t with
      | some id => return .done (some id)
      | none => return .more none) none

/-- Reads the rest of the region that is open now into an item and keeps the last token of it. -/
def readRegionInto (deeper : Deeper) (id : ItemId) : Reading Unit := do
  let (children, last) ← bounded (readAll deeper)
  appendAll id children
  addToken id last

/-- Reads a number of items into an item, fewer if there are no more. -/
def readArgumentsInto (deeper : Deeper) (id : ItemId) : Nat → Reading Unit
  | 0 => return
  | n + 1 => do
    match ← readOne deeper with
    | none => return
    | some child =>
      append id child
      readArgumentsInto deeper id n

end Reading

end ScoreText
