import DeltaForest.Wire.Record

/-!
# Notes

A message may carry a note for people: a word for its kind, a text, and some data by key.
-/

namespace DeltaForest.Protocol

/-- A piece of data of a note. -/
structure Note.Datum where
  key : String
  value : String
  deriving DecidableEq, Repr, Inhabited

/-- A note for people. -/
structure Note where
  kind : String
  text : String
  data : List Note.Datum
  deriving DecidableEq, Repr, Inhabited

namespace Note

/-- The first value with a key. -/
def find? (note : Note) (key : String) : Option String :=
  (note.data.find? (·.key = key)).map Datum.value

instance : Wire Datum where
  toData d := .object [("key", toData d.key), ("value", toData d.value)]
  ofData src d := d.record? src do
    let key ← .required "key"
    let value ← .required "value"
    return ⟨key, value⟩

end Note

instance : Wire Note where
  toData n := .object
    [("kind", toData n.kind), ("message", toData n.text), ("data", toData n.data)]
  ofData src d := d.record? src do
    let kind ← .required "kind"
    let text ← .required "message"
    let data ← .defaulted "data" []
    return ⟨kind, text, data⟩

/-- The field of a message for its note, left out if there is none. -/
def noteField : Option Note → List (String × Data)
  | some note => [("message", toData note)]
  | none => []

/-- Reads the field for a note. -/
def noteReader : Fields.Reader (Option Note) := .defaulted "message" none

end DeltaForest.Protocol
