import DeltaForest.Text.Blank
import DeltaForest.Text.Path

/-!
# Formats of message files

Messages are kept in files in one of two formats: as lines of JSON or as one CBOR list.
-/

namespace DeltaForest

/-- How messages are kept in a file. -/
inductive FileFormat
  | json
  | cbor
  deriving DecidableEq, Repr, Inhabited

namespace FileFormat

/-- The word for a format. -/
def word : FileFormat → String
  | json => "json"
  | cbor => "cbor"

/-- The other format. -/
def other : FileFormat → FileFormat
  | json => cbor
  | cbor => json

/-- The format that a word in lower case stands for. -/
def ofWord? (s : String) : Option FileFormat :=
  if s = "json" then some json else if s = "cbor" then some cbor else none

/-- The format that the name of a file tells. -/
def ofPath? (path : String) : Option FileFormat :=
  match Text.extension? path with
  | some s =>
    if s = "json" ∨ s = "jsonl" ∨ s = "ndjson" then some json
    else if s = "cbor" then some cbor
    else none
  | none => none

end FileFormat

end DeltaForest
