import ScoreText.Document.Inclusion
/-!
Whether a document makes a page: it has music or markup at toplevel or in a book, a part of one or
a score, itself or in a document that it includes.
-/
namespace ScoreText.Family

/-- A search that enters no document twice. -/
abbrev Searching := StateT (List DocumentId) Resolving

/-- Whether music or markup is among the children of an item or of books and scores at most `n`
levels below. What is done with an included document is given. -/
def outputBelow (enter : DocumentId → Searching Bool) (d : DocumentId) (tree : Tree) :
    Nat → ItemId → Searching Bool
  | 0, _ => return false
  | n + 1, id => do
    if id == Tree.root then modify (d :: ·)
    (tree.children id).anyM fun c =>
      match tree.kind c with
      | .markup => return true
      | .book | .bookPart | .score => outputBelow enter d tree n c
      | .inclusion => do
        match ← included d c with
        | none => return false
        | some inner => if (← get).contains inner then return false else enter inner
      | kind => return kind.isMusic

/-- Whether there is output below an item, with at most `n` documents entered within each
other. -/
def outputWithin : Nat → DocumentId → ItemId → Searching Bool
  | 0, _, _ => return false
  | n + 1, d, id => do
    let tree := ((← getThe Family).document d).tree
    outputBelow (fun inner => outputWithin n inner Tree.root) d tree tree.size id

/-- Whether an item, such as the root or a score, makes a page. -/
def makesPage (d : DocumentId) (id : ItemId) : Resolving Bool := do
  let f ← get
  (outputWithin (f.files.depthLimit + 1) d id).run' []

end ScoreText.Family
