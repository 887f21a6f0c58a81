import DeltaForest.CommandLine

/-!
# Folders

A folder of files by their paths, as the program finds it where it is started. With a folder in
place of a disk the program can be run as a function: `Folder.run` gives the outcome and the folder
that is left behind.
-/

namespace DeltaForest

/-- Files by path. -/
structure Folder where
  files : List (String × List UInt8)
  deriving DecidableEq, Repr, Inhabited

namespace Folder

/-- The longest name of a file, in bytes. -/
def nameLimit : Nat := 255

/-- The longest path, in bytes. -/
def pathLimit : Nat := 4095

/-- Whether a route from the folder leads to a folder in it. -/
def isFolder (f : Folder) (route : List String) : Bool :=
  f.files.any fun (name, _) =>
    route.isPrefixOf (Text.components name) && route.length < (Text.components name).length

/-- Where a path leads. -/
inductive Spot
  /-- A place in the folder, which may hold a file. -/
  | within (route : List String)
  /-- A place beside the folder. -/
  | beside (name : String)
  deriving DecidableEq, Repr

/-- Where the components of a path lead from a folder that has been reached by a route. All of them
    but the last one have to lead to folders. Nothing is known of what is around the folder, but
    that files can be put beside it. -/
def follow? (f : Folder) (route : List String) : List String → Option Spot
  | [] => none
  | [name] => if name.utf8ByteSize ≤ nameLimit then some (.within (route ++ [name])) else none
  | ".." :: rest =>
    match route, rest with
    | [], [name] => if name.utf8ByteSize ≤ nameLimit then some (.beside name) else none
    | [], _ => none
    | route, rest => f.follow? route.dropLast rest
  | name :: rest =>
    if f.isFolder (route ++ [name]) then f.follow? (route ++ [name]) rest else none

/-- Where a path leads. One that starts at the top of the disk, or ends like one to a folder, leads
    to no file. -/
def spot? (f : Folder) (path : String) : Option Spot :=
  let parts := Text.cut '/' path
  if parts.head? = some "" || parts.getLast?.any (· ∈ ["", ".", ".."]) then none
  else if path.utf8ByteSize ≤ pathLimit then f.follow? [] (Text.components path)
  else none

/-- What the file at a path holds. -/
def read? (f : Folder) (path : String) : Option (List UInt8) :=
  match f.spot? path with
  | some (.within route) =>
    (f.files.find? fun (name, _) => Text.components name = route).map (·.2)
  | _ => none

/-- The folder with a file written at a path, unless that fails. A file beside the folder leaves it
    as it is. -/
def write? (f : Folder) (path : String) (content : List UInt8) : Option Folder :=
  match f.spot? path with
  | some (.within route) =>
    if f.isFolder route then none
    else
      let others := f.files.filter fun (name, _) => Text.components name ≠ route
      some ⟨others ++ [("/".intercalate route, content)]⟩
  -- What lies beside the folder is not part of it.
  | some (.beside _) => some f
  | none => none

/-- Runs the program in a folder: the outcome, and the folder afterwards. -/
def run (f : Folder) (environment : String → Option String) (arguments : List String) :
    CommandLine.Outcome × Folder :=
  let outcome := CommandLine.run ⟨environment, f.read?⟩ arguments
  match outcome.file with
  | none => (outcome, f)
  | some (path, content) =>
    match f.write? path content with
    | some f => (outcome, f)
    | none => (outcome.unwritten, f)

end Folder

end DeltaForest
