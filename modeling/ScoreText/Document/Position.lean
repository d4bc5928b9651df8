import ScoreText.Document.Walk
/-!
Musical time at a position of the text.

The way from the outermost music down to a position is a list of levels. Each one names the items
of its container that come before the position in time.
-/
namespace ScoreText

/-- A container of music, the items in it that come before a position, and the scaling it sets. -/
structure Level where
  container : ItemId
  items : List ItemId
  scaling : Fraction
  deriving DecidableEq, Repr

namespace Tree

/-- The level of a container for a position at one of its children, or behind all of them. -/
def level (t : Tree) (container : ItemId) (child : Option ItemId) : Level :=
  let before := (t.children container).takeWhile fun c => some c != child
  match t.kind container, (t.item container).details with
  | .musicList, .list true | .tag, _ | .partCombine, _ => ⟨container, [], 1⟩
  | .scaler, .scaler _ _ own => ⟨container, before, own⟩
  | .grace, _ => ⟨container, before, 0⟩
  | _, _ => ⟨container, before, 1⟩

/-- Goes on from an item to its ancestors, with the levels found so far. An item that ends at the
position or in front of it counts as a whole, and the levels within it are dropped. The outermost
music has to reach the position. -/
def levelsAbove (t : Tree) (position : Nat) :
    List ItemId → ItemId → Bool → List Level → List Level
  | [], _, _, levels => levels
  | p :: above, node, inMusic, levels =>
    let stop := t.stop node
    if (t.kind p).isMusic then
      let levels :=
        if position > stop then [t.level p (t.following? node)]
        else
          let here := t.level p (some node)
          if position = stop then [{ here with items := here.items ++ [node] }]
          else here :: levels
      t.levelsAbove position above p true levels
    else if !inMusic then t.levelsAbove position above p false levels
    else if position > stop then []
    else if position = stop then [⟨p, [node], 1⟩]
    else ⟨p, [], 1⟩ :: levels

def assignsMusic (t : Tree) (id : ItemId) : Bool :=
  t.kind id == .assignment && t.parent id == some root &&
    (t.children id).getLast?.any fun value => (t.kind value).isMusic

/-- The levels of music that lead to a position, the outermost one first. Outside music there are
none. The notes of a chord count as the chord, and a toplevel assignment of music as music. -/
def levels (t : Tree) (position : Nat) : List Level :=
  let node := t.innermost position none
  if t.assignsMusic node then [⟨node, [], 1⟩]
  else
    let node := ((t.parent node).filter (t.kind · == .chord)).getD node
    let timed := (t.kind node).isTimed
    t.levelsAbove position (t.ancestors node) node timed (if timed then [⟨node, [], 1⟩] else [])

/-- The first music on the way up that is not in music itself. -/
def outermostAbove (t : Tree) : List ItemId → ItemId → Option ItemId
  | [], _ => none
  | p :: above, node =>
    if (t.kind node).isMusic && !(t.kind p).isMusic then some node else t.outermostAbove above p

/-- The outermost music around a position. -/
def outermostMusic? (t : Tree) (position : Nat) : Option ItemId :=
  let node := t.innermost position none
  t.outermostAbove (t.ancestors node) node

end Tree

namespace Timing

/-- The items of levels with the scaling in effect there, which is what the levels down to them
make up together. -/
def entries : Fraction → List Level → Timing (List (ItemId × Fraction))
  | _, [] => return []
  | scaling, l :: levels => do
    let scaling ← multiply scaling l.scaling
    return l.items.map (fun id => (id, scaling)) ++ (← entries scaling levels)

def along (step : Step) (items : List (ItemId × Fraction)) (time : Fraction) : Timing Fraction :=
  items.foldlM (fun time (id, scaling) => step id time scaling) time

/-- The number of items that two lists have in common at the start. -/
def common : List (ItemId × Fraction) → List (ItemId × Fraction) → Nat
  | (a, _) :: as, (b, _) :: bs => if a = b then common as bs + 1 else 0
  | _, _ => 0

end Timing

namespace Family

def walkWithin (f : Family) (d : DocumentId) (id : ItemId) (time scaling : Fraction) :
    Timing Fraction :=
  timeAfter f.options.counting d id time scaling

/-- The musical time at a position, if it is in music. -/
def timeAt? (d : DocumentId) (position : Nat) : Resolving (Option Fraction) := do
  let f ← get
  match (f.document d).tree.levels position with
  | [] => return none
  | levels =>
    let (time, overflowed) ← timed do
      Timing.along (f.walkWithin d) (← Timing.entries 1 levels) 0
    return if overflowed then none else some time

/-- The musical time from one position to a later one, if both are in the same music. What comes
before both of them is counted once. -/
def timeBetween? (d : DocumentId) (first last : Nat) : Resolving (Option Fraction) := do
  let f ← get
  let tree := (f.document d).tree
  match tree.levels first, tree.levels last with
  | levels1@(top1 :: _), levels2@(top2 :: _) =>
    if top1.container ≠ top2.container ∨
        tree.outermostMusic? first ≠ tree.outermostMusic? last then
      return none
    let ((time1, time2), overflowed) ← timed do
      let items1 ← Timing.entries 1 levels1
      let items2 ← Timing.entries 1 levels2
      let n := Timing.common items1 items2
      let time ← Timing.along (f.walkWithin d) (items1.take n) 0
      let time1 ← Timing.along (f.walkWithin d) (items1.drop n) time
      let time2 ← Timing.along (f.walkWithin d) (items2.drop n) time
      return (time1, time2)
    return if overflowed then none else time2.sub? time1
  | _, _ => return none

/-- The musical time between two positions, in any order. -/
def timeApart? (d : DocumentId) (a b : Nat) : Resolving (Option Fraction) :=
  timeBetween? d (min a b) (max a b)

end Family

end ScoreText
