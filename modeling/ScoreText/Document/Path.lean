import ScoreText.Time.Duration
/-!
Paths of files, with a slash between their parts.

Two paths are the same if they have the same parts. Empty parts and single dots do not count, but a
dot in front of a relative path does. Two dots are a part like any other.
-/
namespace ScoreText.Path

def isAbsolute (path : String) : Bool :=
  path.toList.head? == some '/'

def isVoid (part : List Char) : Bool :=
  part.isEmpty || part == ['.']

def pieces (path : String) : List (List Char) :=
  Duration.cut '/' path.toList

/-- The parts of a path that count. An empty part stands for the root. -/
def parts (path : String) : List (List Char) :=
  let ps := pieces path
  let front : List (List Char) :=
    if isAbsolute path then [[]]
    else if ps.head? == some ['.'] then [['.']]
    else []
  front ++ ps.filter (!isVoid ·)

def same (a b : String) : Bool :=
  parts a == parts b

def glue (ps : List (List Char)) : String :=
  String.ofList (['/'].intercalate ps)

def trimEnd (ps : List (List Char)) : List (List Char) :=
  (ps.reverse.dropWhile isVoid).reverse

/-- The path without its last part. Neither the root nor the empty path has one. -/
def parent? (path : String) : Option String :=
  if isAbsolute path then
    match trimEnd (pieces path).tail with
    | [] => none
    | ps => some (String.ofList ('/' :: (glue (trimEnd ps.dropLast)).toList))
  else
    match pieces path with
    | [] => none
    | p :: ps =>
      match trimEnd ps with
      | [] => if p.isEmpty then none else some ""
      | ps => some (glue (p :: trimEnd ps.dropLast))

/-- The path of a name within a directory. An absolute name stands for itself. -/
def join (directory name : String) : String :=
  if isAbsolute name || directory.isEmpty then name
  else if directory.toList.getLast? == some '/' then directory ++ name
  else directory ++ "/" ++ name

end ScoreText.Path
