import ScoreText.Music.Item
/-!
The tree of a score. All items lie in one array and refer to each other by their place in it. The
root is at place 0. Items that are attributes of another item have no parent.
-/
namespace ScoreText

structure Tree where
  items : Array Item
  deriving DecidableEq, Repr

namespace Tree

def root : ItemId := 0

def start : Tree :=
  ⟨#[.single .document 0 none]⟩

def size (t : Tree) : Nat :=
  t.items.size

/-- The item at a place. A place outside stands for an empty item. -/
def item (t : Tree) (id : ItemId) : Item :=
  t.items[id]?.getD (.single .document 0 none)

def kind (t : Tree) (id : ItemId) : ItemKind :=
  (t.item id).kind

def children (t : Tree) (id : ItemId) : List ItemId :=
  (t.item id).children

def parent (t : Tree) (id : ItemId) : Option ItemId :=
  (t.item id).parent

/-- Adds an item without a parent. Its place is the size of the tree before. -/
def push (t : Tree) (i : Item) : Tree :=
  ⟨t.items.push i⟩

def update (t : Tree) (id : ItemId) (f : Item → Item) : Tree :=
  ⟨t.items.modify id f⟩

def detach (t : Tree) (child : ItemId) : Tree :=
  match t.parent child with
  | some old => t.update old fun i => { i with children := i.children.filter (· != child) }
  | none => t

/-- Makes an item the last child of another one and of no one else. -/
def append (t : Tree) (parent child : ItemId) : Tree :=
  ((t.detach child).update child fun i => { i with parent := some parent }).update parent
    fun i => { i with children := i.children ++ [child] }

/-- At most `n` items on the way up from an item. -/
def climb (t : Tree) : Nat → ItemId → List ItemId
  | 0, _ => []
  | n + 1, id =>
    match t.parent id with
    | some p => p :: t.climb n p
    | none => []

/-- The items above an item, its parent first. -/
def ancestors (t : Tree) (id : ItemId) : List ItemId :=
  t.climb t.size id

/-- The items at most `n` levels below an item, each in front of those below it. -/
def below (t : Tree) : Nat → ItemId → List ItemId
  | 0, _ => []
  | n + 1, id => (t.children id).flatMap fun c => c :: t.below n c

def descendants (t : Tree) (id : ItemId) : List ItemId :=
  t.below t.size id

/-- The first item of a kind below an item. -/
def find? (t : Tree) (id : ItemId) (kind : ItemKind) : Option ItemId :=
  (t.descendants id).find? (t.kind · == kind)

/-- The place of an item among the children of its parent. -/
def rank? (t : Tree) (id : ItemId) : Option Nat :=
  (t.parent id).bind fun p => (t.children p).idxOf? id

/-- The child behind an item. -/
def following? (t : Tree) (id : ItemId) : Option ItemId := do
  let p ← t.parent id
  let i ← t.rank? id
  (t.children p)[i + 1]?

/-- The child of the root that an item is or lies in. -/
def toplevel? (t : Tree) (id : ItemId) : Option ItemId :=
  (id :: t.ancestors id).find? (t.parent · == some root)

/-- The children of the root in front of one of them, the nearest first. -/
def before (t : Tree) (id : ItemId) : List ItemId :=
  ((t.children root).takeWhile (· != id)).reverse

/-- The end of an item when at most `n` levels below it are looked at. -/
def stopWithin (t : Tree) : Nat → ItemId → Nat
  | 0, id => (t.item id).ownEnd
  | n + 1, id =>
    let i := t.item id
    let parts := (i.children.getLast?.toList ++ i.details.items).map (t.stopWithin n)
    (parts ++ i.details.tokens.map Token.stop).foldl max i.ownEnd

/-- The byte offset where an item ends, its last child and its attributes included. -/
def stop (t : Tree) (id : ItemId) : Nat :=
  t.stopWithin t.size id

/-- The last child that starts at a position or before it. The children start one after the
other. -/
def childAt? (t : Tree) (id : ItemId) (position : Nat) : Option ItemId :=
  ((t.children id).takeWhile fun c => (t.item c).position ≤ position).getLast?

/-- The deepest item at a position or just before it, at most `n` levels below an item. -/
def innermostBelow (t : Tree) (position : Nat) : Nat → ItemId → ItemId
  | 0, id => id
  | n + 1, id =>
    match t.childAt? id position with
    | none => id
    | some c => if (t.item c).position = position then c else t.innermostBelow position n c

/-- The deepest item at a position or just before it. The depth may be limited. -/
def innermost (t : Tree) (position : Nat) (depth : Option Nat) : ItemId :=
  t.innermostBelow position (match depth with
    | some d => min d t.size
    | none => t.size) root

/-- The items that can be reached from an item in at most `n` steps through children and
attributes. -/
def reach (t : Tree) : Nat → ItemId → List ItemId
  | 0, _ => []
  | n + 1, id =>
    let i := t.item id
    id :: (i.children ++ i.details.items).flatMap (t.reach n)

/-- The items that can be reached from the root, by their places. -/
def reachable (t : Tree) : List ItemId :=
  (List.range t.size).filter (t.reach t.size root).contains

end Tree

end ScoreText
