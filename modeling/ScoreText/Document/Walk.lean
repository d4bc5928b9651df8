import ScoreText.Document.Value
/-!
How much time music takes.

```text
  note, rest, chord ...   its length times the scaling in effect
  { ... }                 the children one after the other
  << ... >>               the child that ends last, all from the same time
  \tuplet 3/2 { ... }     the children with the scaling times 2/3
  \grace { ... }          the children with the scaling 0
  \repeat                 the body as often as it is played, with one ending each time
  \name                   what the name stands for
```

A sum or product that does not fit is left out and leaves a mark, and the walk goes on.
-/
namespace ScoreText

structure Counting where
  /-- whether a repeat that is played as written counts as often as it says -/
  unfoldRepeats : Bool
  /-- how deep references may be nested; one that is deeper takes no time -/
  maxReferenceDepth : Nat
  /-- how deep items may be nested; one that is deeper takes no time -/
  maxNestingDepth : Nat

def Options.counting (o : Options) : Counting :=
  ⟨o.unfoldRepeats, o.maxReferenceDepth, o.maxNestingDepth⟩

/-- A walk along music. Its mark tells whether something did not fit. -/
abbrev Timing := StateT Bool Resolving

namespace Timing

def leaveMark : Timing Unit :=
  set true

/-- The time and the length times the factor, or only the time if that does not fit. -/
def addScaled (time length factor : Fraction) : Timing Fraction :=
  match (length.mul? factor).bind time.add? with
  | some later => return later
  | none => do
    leaveMark
    return time

def multiply (a b : Fraction) : Timing Fraction :=
  match a.mul? b with
  | some product => return product
  | none => do
    leaveMark
    return 0

/-- What walks along an item: the time before it and the scaling in effect give the time after
it. -/
abbrev Step := ItemId → Fraction → Fraction → Timing Fraction

/-- Items one after the other. -/
def inTurn (step : Step) (items : List ItemId) (time scaling : Fraction) : Timing Fraction :=
  items.foldlM (fun time item => step item time scaling) time

def later (a b : Fraction) : Fraction :=
  if a ≤ b then b else a

/-- Items from the same time on. -/
def together (step : Step) (items : List ItemId) (time scaling : Fraction) : Timing Fraction := do
  match ← items.mapM fun item => step item time scaling with
  | [] => return time
  | first :: others => return others.foldl later first

/-- The children of a repeat that are played each time, and its alternative endings if it has
some at its end. -/
def splitRepeat (t : Tree) (id : ItemId) : List ItemId × Option ItemId :=
  let children := t.children id
  match children.getLast? with
  | some last => if t.kind last == .alternative then (children.dropLast, some last)
    else (children, none)
  | none => (children, none)

/-- The endings that alternatives hold in their first child. -/
def endings (t : Tree) (alternative : Option ItemId) : List ItemId :=
  match alternative.bind fun a => (t.children a).head? with
  | some list => t.children list
  | none => []

/-- A repeat that is played `count` times. The body takes the same time whenever it is played. If
there are fewer endings than that, the first one is played more often; if there are more, one ending
more is taken than the music is played. -/
def unfolded (step : Step) (body ends : List ItemId) (count : Int) (time scaling : Fraction) :
    Timing Fraction := do
  let length ← inTurn step body 0 scaling
  match ends.take (count.toNat + 1) with
  | [] => addScaled time length count
  | first :: others =>
    let missing := count - (first :: others).length
    let time ←
      if missing > 0 then do
        let pass ← step first length scaling
        addScaled time pass missing
      else pure time
    (first :: others).foldlM (fun time ending => do
      step ending (← addScaled time length 1) scaling) time

/-- A repeat. If it is played as written, the body and the endings count once. -/
def repetition (unfoldRepeats : Bool) (step : Step) (doc : Document) (id : ItemId)
    (time scaling : Fraction) : Timing Fraction := do
  let (body, alternative) := splitRepeat doc.tree id
  if !unfoldRepeats && doc.repeatStyle? id == some "volta" then
    inTurn step (body ++ alternative.toList) time scaling
  else
    unfolded step body (endings doc.tree alternative) (max 1 (doc.timesPlayed id)) time scaling

def expression (unfoldRepeats : Bool) (step : Step) (doc : Document) (id : ItemId)
    (time scaling : Fraction) : Timing Fraction := do
  let item := doc.tree.item id
  match item.kind, item.details with
  | .musicList, .list true | .partCombine, _ => together step item.children time scaling
  | .tag, _ => inTurn step item.children.getLast?.toList time scaling
  | .scaler, .scaler _ _ own => inTurn step item.children time (← multiply scaling own)
  | .grace, _ => inTurn step item.children time 0
  | .repetition, _ => repetition unfoldRepeats step doc id time scaling
  | _, _ => inTurn step item.children time scaling

/-- Walks along an item with at most `n` levels of items and a number of references left. -/
def walk (unfoldRepeats : Bool) : Nat → Nat → DocumentId → Step
  | 0, _, _, _, time, _ => return time
  | n + 1, references, d, id, time, scaling => do
    let doc := (← getThe Family).document d
    let item := doc.tree.item id
    if item.kind.isDurable then
      match item.durationOrZero.length? with
      | some length => addScaled time length scaling
      | none =>
        leaveMark
        return time
    else if item.kind == .userCommand then
      match references with
      | 0 => return time
      | references + 1 =>
        match ← Family.variableValue? d id with
        | some (source, value) => walk unfoldRepeats n references source value time scaling
        | none => return time
    else if item.kind.isMusic then
      expression unfoldRepeats (walk unfoldRepeats n references d) doc id time scaling
    else return time

end Timing

namespace Family

def timeAfter (c : Counting) (d : DocumentId) (id : ItemId) (time scaling : Fraction) :
    Timing Fraction :=
  Timing.walk c.unfoldRepeats c.maxNestingDepth c.maxReferenceDepth d id time scaling

/-- What a walk comes to, and whether something did not fit. -/
def timed {α : Type} (walk : Timing α) : Resolving (α × Bool) :=
  walk.run false

/-- The time that an item takes, and whether something did not fit. -/
def musicLength (c : Counting) (d : DocumentId) (id : ItemId) :
    Resolving (Option Fraction × Bool) := do
  let (time, overflowed) ← timed (timeAfter c d id 0 1)
  return (if overflowed then none else some time, overflowed)

/-- The length of an item: as written for one that takes time of its own, the time of all that it
holds for music, and zero for anything else. -/
def lengthOf (d : DocumentId) (id : ItemId) : Resolving (Option Fraction) := do
  let f ← get
  let item := (f.document d).tree.item id
  if item.kind.isDurable then return item.durationOrZero.length?
  else if item.kind.isMusic then return (← musicLength f.options.counting d id).1
  else return some 0

end Family

end ScoreText
