import ScoreText.Document.Files
import ScoreText.Music.Reading.Score
/-!
A document and the documents that it includes.

A file that is included from several places is read once. What it is included from is the place
from which it was first found.
-/
namespace ScoreText

/-- What reading and time depend on. -/
structure Options where
  /-- the language of pitch names at the start of a score -/
  language : String
  /-- where relative inclusions are looked for behind the directory of the document -/
  includePath : List String
  /-- whether a repeat that is played as written counts as often as it says -/
  unfoldRepeats : Bool
  /-- how deep references to variables may be nested -/
  maxReferenceDepth : Nat
  /-- how deep items may be nested -/
  maxNestingDepth : Nat

def Options.standard : Options :=
  ⟨"nederlands", [], false, 256, 256⟩

/-- Documents are known by the order in which they were read. The first one is the root. -/
abbrev DocumentId := Nat

structure Document where
  text : String
  filename : Option String
  tokens : List ScannedToken
  tree : Tree
  /-- the document and the item that it was first included from -/
  includedFrom : Option (DocumentId × ItemId)

def Document.ofText (options : Options) (text : String) (filename : Option String)
    (includedFrom : Option (DocumentId × ItemId)) : Document :=
  let tokens := scanMusic text
  { text
    filename
    tokens
    tree := .ofTokens tokens options.language options.maxNestingDepth
    includedFrom }

def Document.size (d : Document) : Nat :=
  d.text.utf8ByteSize

/-- A document and all that has been included from it so far. -/
structure Family where
  options : Options
  files : Files
  documents : Array Document
  /-- what the items that include a file were found to include -/
  inclusions : List ((DocumentId × ItemId) × Option DocumentId)

/-- A question whose answer may need further documents to be read. -/
abbrev Resolving := StateM Family

namespace Family

def ofText (options : Options) (files : Files) (text : String) (filename : Option String) :
    Family :=
  ⟨options, files, #[.ofText options text filename none], []⟩

def ofFile? (options : Options) (files : Files) (filename : String) : Option Family :=
  (files.read? filename).map fun text => ofText options files text (some filename)

/-- A document. A number that none has stands for an empty one. -/
def document (f : Family) (d : DocumentId) : Document :=
  f.documents[d]?.getD ⟨"", none, [], .start, none⟩

def atPath? (f : Family) (path : String) : Option DocumentId :=
  (List.range f.documents.size).find? fun d =>
    d != 0 && (f.document d).filename.any (Path.same path)

/-- A document and at most `n` documents above it. -/
def climb (f : Family) : Nat → DocumentId → List DocumentId
  | 0, d => [d]
  | n + 1, d =>
    match (f.document d).includedFrom with
    | some (above, _) => d :: f.climb n above
    | none => [d]

def chain (f : Family) (d : DocumentId) : List String :=
  (f.climb f.documents.size d).filterMap fun d => (f.document d).filename

/-- Where a name within a document is looked for: in the directory of the document, then on the
include path. -/
def places (f : Family) (d : DocumentId) (name : String) : List String :=
  if Path.isAbsolute name then [name]
  else
    let own := (f.document d).filename.bind Path.parent?
    let directories := match own with
      | some dir => dir :: f.options.includePath.filter (!Path.same dir ·)
      | none => f.options.includePath
    directories.map (Path.join · name)

/-- The first path for a name that has been read or can be. -/
def pathOf? (f : Family) (d : DocumentId) (name : String) : Option String :=
  (f.places d name).find? fun path =>
    (f.atPath? path).isSome || (f.files.read? path).isSome

end Family

end ScoreText
