/-!
# Paths

A path is a text of components with slashes between them. Empty components and single dots say
nothing; two dots lead to the directory above.
-/

namespace DeltaForest.Text

/-- A text cut at every occurrence of a character. -/
def cutFrom (separator : Char) (current : List Char) : List Char → List (List Char)
  | [] => [current.reverse]
  | c :: rest =>
    if c = separator then current.reverse :: cutFrom separator [] rest
    else cutFrom separator (c :: current) rest

/-- The parts of a text between occurrences of a character. -/
def cut (separator : Char) (s : String) : List String :=
  (cutFrom separator [] s.toList).map String.ofList

/-- The components of a path that say something. -/
def components (path : String) : List String :=
  (cut '/' path).filter fun part => part ≠ "" && part ≠ "."

/-- The name of the file that a path leads to. -/
def fileName? (path : String) : Option String :=
  ((components path).getLast?).filter (· ≠ "..")

/-- What stands behind the last dot of a file name. A dot at the beginning does not count. -/
def extension? (path : String) : Option String := do
  match (cut '.' (← fileName? path)).reverse with
  | [] | [_] | [_, ""] => none
  | last :: _ => some last

end DeltaForest.Text
