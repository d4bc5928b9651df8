import ScoreText.Document.Family
/-!
Finding the documents that items include.

An item is looked up once, and the answer stays, also if nothing was found. A path is read once for
the whole family, whichever item asks first. A document never includes one above it.
-/
namespace ScoreText

namespace Family

def push (f : Family) (d : Document) : Family :=
  { f with documents := f.documents.push d }

/-- Tries paths in order. A path above ends the search. Else the first one counts that has been
read or can be read. -/
def lookUpAmong (f : Family) (place : DocumentId × ItemId) (above : List String) :
    List String → Option DocumentId × Family
  | [] => (none, f)
  | path :: paths =>
    if above.any (Path.same path) then (none, f)
    else
      match f.atPath? path, f.files.read? path with
      | some d, _ => (some d, f)
      | none, some text =>
        (some f.documents.size, f.push (.ofText f.options text (some path) (some place)))
      | none, none => f.lookUpAmong place above paths

def resolve (f : Family) (d : DocumentId) (id : ItemId) : Option DocumentId × Family :=
  match (f.document d).tree.firstText? id with
  | none => (none, f)
  | some name =>
    if name.isEmpty then (none, f)
    else f.lookUpAmong (d, id) (f.chain d) (f.places d name)

def remember (f : Family) (place : DocumentId × ItemId) (found : Option DocumentId) : Family :=
  { f with inclusions := (place, found) :: f.inclusions }

def included (d : DocumentId) (id : ItemId) : Resolving (Option DocumentId) := fun f =>
  if (f.document d).tree.kind id != .inclusion then (none, f)
  else
    match f.inclusions.lookup (d, id) with
    | some found => (found, f)
    | none =>
      let (found, f) := f.resolve d id
      (found, f.remember (d, id) found)

end Family

end ScoreText
