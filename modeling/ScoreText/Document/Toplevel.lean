import ScoreText.Document.Inclusion
/-!
The toplevel items in front of an item, the nearest first.

They start with the items in front of the toplevel item that holds it. If its document is included
at toplevel, those in front of the inclusion follow, and so on upwards. An inclusion on the way may
be replaced by the items of the document it includes, the last first.
-/
namespace ScoreText.Family

/-- From a toplevel item upwards: the item itself, then the inclusion of its document as long as
that one is toplevel. At most `n` documents are looked at. -/
def stationsFrom (f : Family) : Nat → DocumentId → ItemId → List (DocumentId × ItemId)
  | 0, _, _ => []
  | n + 1, d, node =>
    (d, node) ::
      match (f.document d).includedFrom with
      | some (above, item) =>
        if (f.document above).tree.parent item == some Tree.root then f.stationsFrom n above item
        else []
      | none => []

/-- The toplevel item that holds an item, and the inclusions above. -/
def stations (f : Family) (d : DocumentId) (id : ItemId) : List (DocumentId × ItemId) :=
  match (f.document d).tree.toplevel? id with
  | some node => f.stationsFrom f.documents.size d node
  | none => []

/-- The toplevel items in front of an item, inclusions left as they are. -/
def toplevelItems (f : Family) (d : DocumentId) (id : ItemId) : List (DocumentId × ItemId) :=
  (f.stations d id).flatMap fun (d, node) =>
    ((f.document d).tree.before node).map fun item => (d, item)

abbrev Visitor (α : Type) := DocumentId → Document → ItemId → α → Turn α

/-- Takes items one after the other until a turn is the last one. -/
def takeTurns {α : Type} (turn : ItemId → α → Resolving (Turn α)) :
    List ItemId → α → Resolving (Turn α)
  | [], a => return .more a
  | id :: ids, a => do
    match ← turn id a with
    | .done a => return .done a
    | .more a => takeTurns turn ids a

/-- Visits an item or, if it includes a document, the toplevel items of that document, the last
first. A document that is open already is left out. At most `n` documents are opened within each
other. -/
def visit {α : Type} (visitor : Visitor α) :
    Nat → List DocumentId → DocumentId → ItemId → α → Resolving (Turn α)
  | 0, _, _, _, a => return .more a
  | n + 1, opened, d, item, a => do
    let doc := (← get).document d
    if doc.tree.kind item != .inclusion then return visitor d doc item a
    match ← included d item with
    | none => return .more a
    | some inner =>
      if opened.contains inner then return .more a
      let items := ((← get).document inner).tree.children Tree.root
      takeTurns (visit visitor n (inner :: opened) inner) items.reverse a

/-- Visits what is in front of toplevel items that hold each other's documents. The documents stay
open on the way up. -/
def visitAbove {α : Type} (visitor : Visitor α) :
    List (DocumentId × ItemId) → List DocumentId → α → Resolving (Turn α)
  | [], _, a => return .more a
  | (d, node) :: above, opened, a => do
    let f ← get
    let items := (f.document d).tree.before node
    match ← takeTurns (visit visitor f.files.depthLimit (d :: opened) d) items a with
    | .done a => return .done a
    | .more a => visitAbove visitor above (d :: opened) a

/-- Visits the toplevel items in front of an item, inclusions replaced by what they include, until
the visitor is done. -/
def visitToplevel {α : Type} (visitor : Visitor α) (d : DocumentId) (id : ItemId) (a : α) :
    Resolving α := do
  return (← visitAbove visitor ((← get).stations d id) [] a).value

/-- The toplevel items in front of an item, inclusions replaced by what they include. -/
def expandedToplevelItems (d : DocumentId) (id : ItemId) :
    Resolving (List (DocumentId × ItemId)) := do
  let items ← visitToplevel (fun d _ item items => .more ((d, item) :: items)) d id []
  return items.reverse

end ScoreText.Family
