import ScoreText.Document.Path
/-!
Directories and files on a disk.

A path is followed piece by piece from the root, and two dots lead back to the directory above. So
a path only leads somewhere if there are directories on all of its way, and many paths lead to one
place. Writing a file makes the directories on the way. Of what was written to one place, the last
text counts.
-/
namespace ScoreText

/-- The names on the way from the root, the last one in front. -/
abbrev Place := List (List Char)

inductive Entry where
  | directory
  /-- a file, which cannot be read if it has no text -/
  | file (text : Option String)

/-- What is where. The entry that counts is in front of older ones for the same place. -/
structure Disk where
  entries : List (Place × Entry)

namespace Disk

/-- The number of bytes of the longest path that can be followed. -/
def longestPath : Nat := 4095

/-- What is at a place. The root is always a directory. -/
def entry? (d : Disk) (place : Place) : Option Entry :=
  if place.isEmpty then some .directory
  else (d.entries.find? fun e => e.1 == place).map (·.2)

def isDirectory (d : Disk) (place : Place) : Bool :=
  match d.entry? place with
  | some .directory => true
  | _ => false

/-- Where one piece of a path leads. Above the root is the root. -/
def step (place : Place) (piece : List Char) : Place :=
  if Path.isVoid piece then place
  else if piece == ['.', '.'] then place.tail
  else piece :: place

/-- Where pieces lead. Each step starts from a directory, the ones that lead nowhere too. -/
def follow (d : Disk) : Place → List (List Char) → Option Place
  | place, [] => some place
  | place, piece :: rest =>
    if d.isDirectory place then d.follow (step place piece) rest else none

def read? (d : Disk) (path : String) : Option String :=
  if !Path.isAbsolute path || path.utf8ByteSize > longestPath then none
  else match (d.follow [] (Path.pieces path)).bind d.entry? with
    | some (.file text) => text
    | _ => none

/-- Makes the directories that pieces lead through, and says where they lead. A file on the way
leaves none. -/
def makeWay : Disk → Place → List (List Char) → Option (Disk × Place)
  | d, place, [] => some (d, place)
  | d, place, piece :: rest =>
    let next := step place piece
    match d.entry? next with
    | some .directory => d.makeWay next rest
    | some (.file _) => none
    | none => makeWay ⟨(next, .directory) :: d.entries⟩ next rest

def makeDirectory (d : Disk) (path : String) : Disk :=
  match d.makeWay [] (Path.pieces path) with
  | some (d, _) => d
  | none => d

/-- Writes a file and makes the directories above it. It does not take the place of a directory. -/
def write (d : Disk) (path : String) (text : Option String) : Disk :=
  let ps := Path.pieces path
  match d.makeWay [] ps.dropLast, ps.getLast? with
  | some (d, above), some name =>
    let place := step above name
    if d.isDirectory place then d else ⟨(place, .file text) :: d.entries⟩
  | _, _ => d

/-- The disk that nothing has been written to. It has the null device, which is always empty. -/
def bare : Disk :=
  write ⟨[]⟩ "/dev/null" (some "")

/-- The disk with files below a directory, written one after the other. -/
def ofList (directory : String) (files : List (String × Option String)) : Disk :=
  files.foldl (fun d (path, text) => d.write (Path.join directory path) text)
    (bare.makeDirectory directory)

end Disk

end ScoreText
