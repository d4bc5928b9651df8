import ScoreText.Document.Disk
/-!
Where the texts that are included come from.
-/
namespace ScoreText

/-- What can be included: the text at each path that has one. -/
structure Files where
  read? : String → Option String
  /-- how deep inclusions can be nested -/
  depthLimit : Nat

namespace Files

/-- Texts at finitely many paths. Each file is entered once. -/
def within (paths : List String) (text? : String → Option String) : Files where
  read? path := if paths.any (Path.same path) then text? path else none
  depthLimit := paths.length + 1

/-- Texts by path. Of several for one path the last counts. -/
def table (entries : List (String × String)) : Files :=
  within (entries.map (·.1)) fun path =>
    (entries.reverse.find? fun e => Path.same e.1 path).map (·.2)

/-- The files on a disk, each at the paths that lead to it from the root. Each of these paths is a
document of its own, but a chain of inclusions that comes back to a file has made its path longer. -/
def disk (d : Disk) : Files where
  read? := d.read?
  depthLimit := (d.entries.length + 1) * Disk.longestPath

end Files

end ScoreText
