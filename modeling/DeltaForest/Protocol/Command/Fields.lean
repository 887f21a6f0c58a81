import DeltaForest.Protocol.Command
import DeltaForest.Protocol.PlaceFields

/-!
# Commands in data trees

Every command is written as the name of its kind and then its fields, and read back by that name.
-/

namespace DeltaForest.Protocol

namespace Command

/-- The fields of a command. -/
def fields : Command → List (String × Data)
  | addPartition new => [("newPartition", toData new)]
  | deletePartition old => [("deletedPartition", toData old)]
  | changeClassifier node new => [("node", toData node), ("newClassifier", toData new)]
  | addProperty node property value | changeProperty node property value =>
    [("node", toData node), ("property", toData property), ("newValue", toData value)]
  | deleteProperty node property => [("node", toData node), ("property", toData property)]
  | addChild place new =>
    [("parent", toData place.owner), ("newChild", toData new),
      ("containment", toData place.feature), ("index", toData place.index)]
  | deleteChild place old => PlaceNames.child.fields place ++ [("deletedChild", toData old)]
  | replaceChild place old new =>
    [("newChild", toData new)] ++ PlaceNames.child.fields place ++
      [("replacedChild", toData old)]
  | moveChild target moved => destinationFields target ++ [("movedChild", toData moved)]
  | moveAndReplaceChild target moved old =>
    destinationFields target ++ [("replacedChild", toData old), ("movedChild", toData moved)]
  | addAnnotation place new =>
    [("parent", toData place.owner), ("newAnnotation", toData new),
      ("index", toData place.index)]
  | deleteAnnotation place old =>
    [("parent", toData place.owner), ("index", toData place.index),
      ("deletedAnnotation", toData old)]
  | replaceAnnotation place old new =>
    [("newAnnotation", toData new), ("parent", toData place.owner),
      ("index", toData place.index), ("replacedAnnotation", toData old)]
  | moveAnnotation target moved =>
    annotationDestinationFields target ++ [("movedAnnotation", toData moved)]
  | moveAndReplaceAnnotation target moved old =>
    annotationDestinationFields target ++
      [("replacedAnnotation", toData old), ("movedAnnotation", toData moved)]
  | addEntry place new | changeEntry place new =>
    PlaceNames.entry.fields place ++ EntryNames.new.fields new
  | deleteEntry place | deleteResolveInfo place | deleteTarget place =>
    PlaceNames.entry.fields place
  | moveEntry shift | moveAndReplaceEntry shift => entryShiftFields shift
  | addResolveInfo place info | changeResolveInfo place info =>
    PlaceNames.entry.fields place ++ [("newResolveInfo", toData info)]
  | addTarget place new | changeTarget place new =>
    PlaceNames.entry.fields place ++ [("newTarget", toData new)]
where
  /-- The fields for where a child is to go. -/
  destinationFields : Destination → List (String × Data)
    | .elsewhere place => PlaceNames.newChild.fields place
    | .sameOwner feature index =>
      [("newContainment", toData feature), ("newIndex", toData index)]
    | .sameList index => [("newIndex", toData index)]
  /-- The fields for where an annotation is to go. -/
  annotationDestinationFields : AnnotationDestination → List (String × Data)
    | .elsewhere place => [("newParent", toData place.owner), ("newIndex", toData place.index)]
    | .sameOwner index => [("newIndex", toData index)]

/-- The names of all kinds. -/
def kinds : List String :=
  ["AddPartition", "DeletePartition", "ChangeClassifier", "AddProperty", "DeleteProperty",
    "ChangeProperty", "AddChild", "DeleteChild", "ReplaceChild",
    "MoveChildFromOtherContainment", "MoveChildFromOtherContainmentInSameParent",
    "MoveChildInSameContainment", "MoveAndReplaceChildFromOtherContainment",
    "MoveAndReplaceChildFromOtherContainmentInSameParent",
    "MoveAndReplaceChildInSameContainment", "AddAnnotation", "DeleteAnnotation",
    "ReplaceAnnotation", "MoveAnnotationFromOtherParent", "MoveAnnotationInSameParent",
    "MoveAndReplaceAnnotationFromOtherParent", "MoveAndReplaceAnnotationInSameParent",
    "AddReference", "DeleteReference", "ChangeReference", "MoveEntryFromOtherReference",
    "MoveEntryFromOtherReferenceInSameParent", "MoveEntryInSameReference",
    "MoveAndReplaceEntryFromOtherReference",
    "MoveAndReplaceEntryFromOtherReferenceInSameParent",
    "MoveAndReplaceEntryInSameReference", "AddReferenceResolveInfo",
    "DeleteReferenceResolveInfo", "ChangeReferenceResolveInfo", "AddReferenceTarget",
    "DeleteReferenceTarget", "ChangeReferenceTarget"]

/-! ## Reading -/

/-- Reads a place among annotations. -/
def annotationPlace : Fields.Reader AnnotationPlace := do
  let owner ← .required "parent"
  let index ← .required "index"
  return ⟨owner, index⟩

/-- Reads where a child of another node is to go. -/
def childElsewhere : Fields.Reader Destination :=
  return .elsewhere (← PlaceNames.newChild.reader)

/-- Reads where a child of another containment is to go. -/
def childSameOwner : Fields.Reader Destination := do
  let feature ← .required "newContainment"
  let index ← .required "newIndex"
  return .sameOwner feature index

/-- Reads where a child is to go in its list. -/
def childSameList : Fields.Reader Destination :=
  return .sameList (← .required "newIndex")

/-- Reads where an annotation of another node is to go. -/
def annotationElsewhere : Fields.Reader AnnotationDestination := do
  let owner ← .required "newParent"
  let index ← .required "newIndex"
  return .elsewhere ⟨owner, index⟩

/-- Reads where an annotation is to go in its list. -/
def annotationSameOwner : Fields.Reader AnnotationDestination :=
  return .sameOwner (← .required "newIndex")

/-- Reads the move of a child. -/
def moveChildReader (target : Fields.Reader Destination) : Fields.Reader Command := do
  let target ← target
  let moved ← .required "movedChild"
  return moveChild target moved

/-- Reads the move of a child to the place of another one. -/
def moveAndReplaceChildReader (target : Fields.Reader Destination) :
    Fields.Reader Command := do
  let target ← target
  let old ← .required "replacedChild"
  let moved ← .required "movedChild"
  return moveAndReplaceChild target moved old

/-- Reads the move of an annotation. -/
def moveAnnotationReader (target : Fields.Reader AnnotationDestination) :
    Fields.Reader Command := do
  let target ← target
  let moved ← .required "movedAnnotation"
  return moveAnnotation target moved

/-- Reads the move of an annotation to the place of another one. -/
def moveAndReplaceAnnotationReader (target : Fields.Reader AnnotationDestination) :
    Fields.Reader Command := do
  let target ← target
  let old ← .required "replacedAnnotation"
  let moved ← .required "movedAnnotation"
  return moveAndReplaceAnnotation target moved old

/-- Reads the fields of a command of a kind. -/
def reader (kind : String) : Fields.Reader Command :=
  match kind with
  | "AddPartition" => return addPartition (← .required "newPartition")
  | "DeletePartition" => return deletePartition (← .required "deletedPartition")
  | "ChangeClassifier" => do
    let node ← .required "node"
    let new ← .required "newClassifier"
    return changeClassifier node new
  | "AddProperty" => do
    let node ← .required "node"
    let property ← .required "property"
    let value ← .required "newValue"
    return addProperty node property value
  | "DeleteProperty" => do
    let node ← .required "node"
    let property ← .required "property"
    return deleteProperty node property
  | "ChangeProperty" => do
    let node ← .required "node"
    let property ← .required "property"
    let value ← .required "newValue"
    return changeProperty node property value
  | "AddChild" => do
    let owner ← .required "parent"
    let new ← .required "newChild"
    let feature ← .required "containment"
    let index ← .required "index"
    return addChild ⟨owner, feature, index⟩ new
  | "DeleteChild" => do
    let place ← PlaceNames.child.reader
    let old ← .required "deletedChild"
    return deleteChild place old
  | "ReplaceChild" => do
    let new ← .required "newChild"
    let place ← PlaceNames.child.reader
    let old ← .required "replacedChild"
    return replaceChild place old new
  | "MoveChildFromOtherContainment" => moveChildReader childElsewhere
  | "MoveChildFromOtherContainmentInSameParent" => moveChildReader childSameOwner
  | "MoveChildInSameContainment" => moveChildReader childSameList
  | "MoveAndReplaceChildFromOtherContainment" => moveAndReplaceChildReader childElsewhere
  | "MoveAndReplaceChildFromOtherContainmentInSameParent" =>
    moveAndReplaceChildReader childSameOwner
  | "MoveAndReplaceChildInSameContainment" => moveAndReplaceChildReader childSameList
  | "AddAnnotation" => do
    let owner ← .required "parent"
    let new ← .required "newAnnotation"
    let index ← .required "index"
    return addAnnotation ⟨owner, index⟩ new
  | "DeleteAnnotation" => do
    let place ← annotationPlace
    let old ← .required "deletedAnnotation"
    return deleteAnnotation place old
  | "ReplaceAnnotation" => do
    let new ← .required "newAnnotation"
    let place ← annotationPlace
    let old ← .required "replacedAnnotation"
    return replaceAnnotation place old new
  | "MoveAnnotationFromOtherParent" => moveAnnotationReader annotationElsewhere
  | "MoveAnnotationInSameParent" => moveAnnotationReader annotationSameOwner
  | "MoveAndReplaceAnnotationFromOtherParent" =>
    moveAndReplaceAnnotationReader annotationElsewhere
  | "MoveAndReplaceAnnotationInSameParent" =>
    moveAndReplaceAnnotationReader annotationSameOwner
  | "AddReference" => do
    let place ← PlaceNames.entry.reader
    let new ← EntryNames.new.reader
    return addEntry place new
  | "DeleteReference" => return deleteEntry (← PlaceNames.entry.reader)
  | "ChangeReference" => do
    let place ← PlaceNames.entry.reader
    let new ← EntryNames.new.reader
    return changeEntry place new
  | "MoveEntryFromOtherReference" => return moveEntry (← entryElsewhere)
  | "MoveEntryFromOtherReferenceInSameParent" => return moveEntry (← entrySameOwner)
  | "MoveEntryInSameReference" => return moveEntry (← entrySameList)
  | "MoveAndReplaceEntryFromOtherReference" => return moveAndReplaceEntry (← entryElsewhere)
  | "MoveAndReplaceEntryFromOtherReferenceInSameParent" =>
    return moveAndReplaceEntry (← entrySameOwner)
  | "MoveAndReplaceEntryInSameReference" => return moveAndReplaceEntry (← entrySameList)
  | "AddReferenceResolveInfo" => do
    let place ← PlaceNames.entry.reader
    let info ← .required "newResolveInfo"
    return addResolveInfo place info
  | "DeleteReferenceResolveInfo" => return deleteResolveInfo (← PlaceNames.entry.reader)
  | "ChangeReferenceResolveInfo" => do
    let place ← PlaceNames.entry.reader
    let info ← .required "newResolveInfo"
    return changeResolveInfo place info
  | "AddReferenceTarget" => do
    let place ← PlaceNames.entry.reader
    let new ← .required "newTarget"
    return addTarget place new
  | "DeleteReferenceTarget" => return deleteTarget (← PlaceNames.entry.reader)
  | "ChangeReferenceTarget" => do
    let place ← PlaceNames.entry.reader
    let new ← .required "newTarget"
    return changeTarget place new
  | _ => .refuse

/-- The fields of a command, with the name of its kind in front. -/
def tagged (c : Command) : List (String × Data) := ("messageKind", toData c.kind) :: c.fields

/-- Reads a command from fields among which the name of its kind stands. -/
def ofFields? (entries : List (Label × Data)) : Option Command :=
  kindOf? "messageKind" kinds reader entries

end Command

namespace CommandPart

/-- The fields of a command with its id. -/
def fields (part : CommandPart) : List (String × Data) :=
  ("commandId", toData part.id) :: part.command.tagged ++ noteField part.note

/-- Reads a command with its id. -/
def ofFields? (src : Source) (entries : List (Label × Data)) : Option CommandPart :=
  (Data.flatFields? src entries ["commandId", "message"]
    (do
      let id : CommandId ← .required "commandId"
      let note ← noteReader
      return (id, note))
    Command.ofFields?).map fun ((id, note), command) => ⟨id, command, note⟩

instance : Wire CommandPart where
  toData part := .object part.fields
  ofData src d :=
    match d.reached src with
    | .map entries => (Data.labels? src entries).bind (ofFields? src.inside)
    | _ => none

end CommandPart

instance : Wire CommandMessage where
  toData
    | .single part => .object (("shape", toData "single") :: part.fields)
    | .composite parts note => .object
      ([("shape", toData "composite"), ("parts", toData parts)] ++ noteField note)
  ofData src d :=
    (d.union? src "shape").bind fun (shape, fields) =>
      match (Label.ofData src shape).bind (Label.among ["single", "composite"]), fields with
      | some "single", .labelled entries => (CommandPart.ofFields? .part entries).map .single
      | some "composite", fields =>
        Fields.Reader.whole
          (do
            let parts ← .required "parts"
            let note ← noteReader
            return .composite parts note)
          .part fields
      | _, _ => none

end DeltaForest.Protocol
