import ScoreText.Document.Toplevel
/-!
What the names of variables and of markup commands stand for. The nearest toplevel definition in
front of a use counts, inclusions taken into account.
-/
namespace ScoreText

namespace Document

/-- Text of the token that starts an item. -/
def textAt (doc : Document) (id : ItemId) : String :=
  (doc.tree.item id).text

/-- The name that an item calls: its text behind the first character, which takes one byte. -/
def calledName? (doc : Document) (id : ItemId) : Option String :=
  match (doc.textAt id).toList with
  | [] => none
  | c :: name => if c.utf8Size = 1 then some (String.ofList name) else none

/-- The value of an assignment is its last child. -/
def assignedValue? (doc : Document) (id : ItemId) : Option ItemId :=
  (doc.tree.children id).getLast?

def assigns (doc : Document) (name : String) (id : ItemId) : Bool :=
  doc.tree.kind id == .assignment && doc.textAt id == name

/-- The first child of an item, if it is of a kind. -/
def firstChild? (doc : Document) (kind : ItemKind) (id : ItemId) : Option ItemId :=
  (doc.tree.children id).head?.filter (doc.tree.kind · == kind)

/-- Whether a Scheme expression defines a markup command of a name. The definition is a list that
starts with `define-markup-command` and goes on with a list that starts with the name. -/
def definesMarkup (doc : Document) (name : String) (id : ItemId) : Bool :=
  (doc.firstChild? .schemeList id).any fun list =>
    (doc.firstChild? .schemeItem list).any (doc.textAt · == "define-markup-command") &&
      (doc.tree.children list)[1]?.any fun signature =>
        doc.tree.kind signature == .schemeList &&
          (doc.firstChild? .schemeItem signature).any (doc.textAt · == name)

end Document

namespace Family

/-- Looks for the first toplevel item in front of a use that decides what it stands for. -/
def definition? (decides : Document → ItemId → Option (Option ItemId)) (d : DocumentId)
    (id : ItemId) : Resolving (Option (DocumentId × ItemId)) :=
  visitToplevel (fun d doc item _ =>
    match decides doc item with
    | some value => .done (value.map fun v => (d, v))
    | none => .more none) d id none

def variableValue? (d : DocumentId) (id : ItemId) : Resolving (Option (DocumentId × ItemId)) := do
  match ((← get).document d).calledName? id with
  | none => return none
  | some name =>
    definition? (fun doc item =>
      if doc.assigns name item then some (doc.assignedValue? item) else none) d id

/-- What a markup command stands for: the value of a variable, or the Scheme expression that
defines the command. -/
def markupDefinition? (d : DocumentId) (id : ItemId) :
    Resolving (Option (DocumentId × ItemId)) := do
  match ((← get).document d).calledName? id with
  | none => return none
  | some name =>
    definition? (fun doc item =>
      if doc.assigns name item then some (doc.assignedValue? item)
      else if doc.tree.kind item == .scheme && doc.definesMarkup name item then
        some (some item)
      else none) d id

end Family

end ScoreText
