import DeltaForest.Place
import DeltaForest.Pointer

/-!
# Places in messages

A place takes three fields of a message, the owner, the feature and the position. What they are
called depends on the list and on whether the place is an old or a new one; the names stand in a
`PlaceNames`. Fields of an entry are named after the part that they play.
-/

namespace DeltaForest.Protocol

/-- What the fields for a place are called. -/
structure PlaceNames where
  owner : String
  feature : String
  index : String

namespace PlaceNames

/-- The one place of a child. -/
def child : PlaceNames := ⟨"parent", "containment", "index"⟩

/-- Where a child moves to. -/
def newChild : PlaceNames := ⟨"newParent", "newContainment", "newIndex"⟩

/-- Where a child moves from. -/
def oldChild : PlaceNames := ⟨"oldParent", "oldContainment", "oldIndex"⟩

/-- The one place of an entry. -/
def entry : PlaceNames := ⟨"parent", "reference", "index"⟩

/-- Where an entry moves to. -/
def newEntry : PlaceNames := ⟨"newParent", "newReference", "newIndex"⟩

/-- Where an entry moves from. -/
def oldEntry : PlaceNames := ⟨"oldParent", "oldReference", "oldIndex"⟩

/-- The fields for a place. -/
def fields (names : PlaceNames) (p : Place Pointer) : List (String × Data) :=
  [(names.owner, toData p.owner), (names.feature, toData p.feature),
    (names.index, toData p.index)]

/-- Reads the fields for a place. -/
def reader (names : PlaceNames) : Fields.Reader (Place Pointer) := do
  let owner ← .required names.owner
  let feature ← .required names.feature
  let index ← .required names.index
  return ⟨owner, feature, index⟩

end PlaceNames

/-- The fields for the move of an entry. -/
def entryShiftFields : Shift Pointer → List (String × Data)
  | .elsewhere target source =>
    PlaceNames.newEntry.fields target ++ PlaceNames.oldEntry.fields source
  | .sameOwner owner newFeature newIndex oldFeature oldIndex =>
    [("parent", toData owner), ("newReference", toData newFeature), ("newIndex", toData newIndex),
      ("oldReference", toData oldFeature), ("oldIndex", toData oldIndex)]
  | .sameList owner feature newIndex oldIndex =>
    [("parent", toData owner), ("reference", toData feature), ("newIndex", toData newIndex),
      ("oldIndex", toData oldIndex)]

/-- Reads the move of an entry from another node. -/
def entryElsewhere : Fields.Reader (Shift Pointer) := do
  let target ← PlaceNames.newEntry.reader
  let source ← PlaceNames.oldEntry.reader
  return .elsewhere target source

/-- Reads the move of an entry from another reference. -/
def entrySameOwner : Fields.Reader (Shift Pointer) := do
  let owner ← .required "parent"
  let newFeature ← .required "newReference"
  let newIndex ← .required "newIndex"
  let oldFeature ← .required "oldReference"
  let oldIndex ← .required "oldIndex"
  return .sameOwner owner newFeature newIndex oldFeature oldIndex

/-- Reads the move of an entry within a reference. -/
def entrySameList : Fields.Reader (Shift Pointer) := do
  let owner ← .required "parent"
  let feature ← .required "reference"
  let newIndex ← .required "newIndex"
  let oldIndex ← .required "oldIndex"
  return .sameList owner feature newIndex oldIndex

/-- What the fields for an entry are called. -/
structure EntryNames where
  target : String
  resolveInfo : String

namespace EntryNames

/-- The entry that there is from now on. -/
def new : EntryNames := ⟨"newTarget", "newResolveInfo"⟩

/-- The entry that there was. -/
def old : EntryNames := ⟨"oldTarget", "oldResolveInfo"⟩

/-- The entry that was deleted. -/
def deleted : EntryNames := ⟨"deletedTarget", "deletedResolveInfo"⟩

/-- The entry that moves. -/
def moved : EntryNames := ⟨"movedTarget", "movedResolveInfo"⟩

/-- The entry whose place is taken. -/
def replaced : EntryNames := ⟨"replacedTarget", "replacedResolveInfo"⟩

/-- The fields for an entry. -/
def fields (names : EntryNames) (e : Entry) : List (String × Data) :=
  [(names.target, toData e.target), (names.resolveInfo, toData e.resolveInfo)]

/-- Reads the fields for an entry. -/
def reader (names : EntryNames) : Fields.Reader Entry := do
  let target ← .optional names.target
  let resolveInfo ← .optional names.resolveInfo
  return ⟨target, resolveInfo⟩

end EntryNames

end DeltaForest.Protocol
