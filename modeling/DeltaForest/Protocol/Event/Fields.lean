import DeltaForest.Protocol.Event
import DeltaForest.Protocol.PlaceFields

/-!
# Events in data trees

Every event is written as the name of its kind and then its fields, and read back by that name.
The fields for a move have what moves in their middle, between where it went and where it was.
-/

namespace DeltaForest.Protocol

namespace Removal

/-- The fields for a subtree that is gone. -/
def fields (root descendants : String) (r : Removal) : List (String × Data) :=
  [(root, toData r.root), (descendants, toData r.descendants)]

/-- Reads the fields for a subtree that is gone. -/
def reader (root descendants : String) : Fields.Reader Removal := do
  let root ← .required root
  let descendants ← .required descendants
  return ⟨root, descendants⟩

end Removal

namespace Event

/-! ## Writing -/

/-- The fields for the move of a child. -/
def childShiftFields (moved : NodeId) : Shift Pointer → List (String × Data)
  | .elsewhere target source =>
    PlaceNames.newChild.fields target ++ [("movedChild", toData moved)] ++
      PlaceNames.oldChild.fields source
  | .sameOwner owner newFeature newIndex oldFeature oldIndex =>
    [("parent", toData owner), ("newContainment", toData newFeature),
      ("newIndex", toData newIndex), ("movedChild", toData moved),
      ("oldContainment", toData oldFeature), ("oldIndex", toData oldIndex)]
  | .sameList owner feature newIndex oldIndex =>
    [("parent", toData owner), ("containment", toData feature), ("newIndex", toData newIndex),
      ("movedChild", toData moved), ("oldIndex", toData oldIndex)]

/-- The fields for the move of an annotation. -/
def annotationShiftFields (moved : NodeId) : AnnotationShift → List (String × Data)
  | .elsewhere target source =>
    [("newParent", toData target.owner), ("newIndex", toData target.index),
      ("movedAnnotation", toData moved), ("oldParent", toData source.owner),
      ("oldIndex", toData source.index)]
  | .sameOwner owner newIndex oldIndex =>
    [("parent", toData owner), ("newIndex", toData newIndex),
      ("movedAnnotation", toData moved), ("oldIndex", toData oldIndex)]

/-- The fields of an event. -/
def fields : Event → List (String × Data)
  | partitionAdded new => [("newPartition", toData new)]
  | partitionDeleted old => old.fields "deletedPartition" "deletedDescendants"
  | classifierChanged node new old =>
    [("node", toData node), ("newClassifier", toData new), ("oldClassifier", toData old)]
  | propertyAdded node property new =>
    [("node", toData node), ("property", toData property), ("newValue", toData new)]
  | propertyDeleted node property old =>
    [("node", toData node), ("property", toData property), ("oldValue", toData old)]
  | propertyChanged node property new old =>
    [("node", toData node), ("property", toData property), ("newValue", toData new),
      ("oldValue", toData old)]
  | childAdded place new =>
    [("parent", toData place.owner), ("newChild", toData new),
      ("containment", toData place.feature), ("index", toData place.index)]
  | childDeleted place old =>
    old.fields "deletedChild" "deletedDescendants" ++ PlaceNames.child.fields place
  | childReplaced place new old =>
    [("newChild", toData new)] ++ old.fields "replacedChild" "replacedDescendants" ++
      PlaceNames.child.fields place
  | childMoved shift moved => childShiftFields moved shift
  | childMovedAndReplaced shift moved old =>
    childShiftFields moved shift ++ old.fields "replacedChild" "replacedDescendants"
  | annotationAdded place new =>
    [("parent", toData place.owner), ("newAnnotation", toData new),
      ("index", toData place.index)]
  | annotationDeleted place old =>
    old.fields "deletedAnnotation" "deletedDescendants" ++
      [("parent", toData place.owner), ("index", toData place.index)]
  | annotationReplaced place new old =>
    [("newAnnotation", toData new)] ++
      old.fields "replacedAnnotation" "replacedDescendants" ++
      [("parent", toData place.owner), ("index", toData place.index)]
  | annotationMoved shift moved => annotationShiftFields moved shift
  | annotationMovedAndReplaced shift moved old =>
    annotationShiftFields moved shift ++ old.fields "replacedAnnotation" "replacedDescendants"
  | entryAdded place new => PlaceNames.entry.fields place ++ EntryNames.new.fields new
  | entryDeleted place old => PlaceNames.entry.fields place ++ EntryNames.deleted.fields old
  | entryChanged place new old =>
    PlaceNames.entry.fields place ++ EntryNames.new.fields new ++ EntryNames.old.fields old
  | entryMoved shift moved => entryShiftFields shift ++ EntryNames.moved.fields moved
  | entryMovedAndReplaced shift moved old =>
    entryShiftFields shift ++ EntryNames.moved.fields moved ++ EntryNames.replaced.fields old
  | resolveInfoAdded place new target =>
    PlaceNames.entry.fields place ++
      [("newResolveInfo", toData new), ("target", toData target)]
  | resolveInfoDeleted place target old =>
    PlaceNames.entry.fields place ++
      [("target", toData target), ("deletedResolveInfo", toData old)]
  | resolveInfoChanged place new target old =>
    PlaceNames.entry.fields place ++
      [("newResolveInfo", toData new), ("target", toData target),
        ("oldResolveInfo", toData old)]
  | targetAdded place new resolveInfo =>
    PlaceNames.entry.fields place ++
      [("newTarget", toData new), ("resolveInfo", toData resolveInfo)]
  | targetDeleted place resolveInfo old =>
    PlaceNames.entry.fields place ++
      [("resolveInfo", toData resolveInfo), ("deletedTarget", toData old)]
  | targetChanged place new resolveInfo old =>
    PlaceNames.entry.fields place ++
      [("newTarget", toData new), ("resolveInfo", toData resolveInfo),
        ("oldTarget", toData old)]

/-- The names of all kinds. -/
def kinds : List String :=
  ["PartitionAdded", "PartitionDeleted", "ClassifierChanged", "PropertyAdded",
    "PropertyDeleted", "PropertyChanged", "ChildAdded", "ChildDeleted", "ChildReplaced",
    "ChildMovedFromOtherContainment", "ChildMovedFromOtherContainmentInSameParent",
    "ChildMovedInSameContainment", "ChildMovedAndReplacedFromOtherContainment",
    "ChildMovedAndReplacedFromOtherContainmentInSameParent",
    "ChildMovedAndReplacedInSameContainment", "AnnotationAdded", "AnnotationDeleted",
    "AnnotationReplaced", "AnnotationMovedFromOtherParent", "AnnotationMovedInSameParent",
    "AnnotationMovedAndReplacedFromOtherParent", "AnnotationMovedAndReplacedInSameParent",
    "ReferenceAdded", "ReferenceDeleted", "ReferenceChanged", "EntryMovedFromOtherReference",
    "EntryMovedFromOtherReferenceInSameParent", "EntryMovedInSameReference",
    "EntryMovedAndReplacedFromOtherReference",
    "EntryMovedAndReplacedFromOtherReferenceInSameParent",
    "EntryMovedAndReplacedInSameReference", "ReferenceResolveInfoAdded",
    "ReferenceResolveInfoDeleted", "ReferenceResolveInfoChanged", "ReferenceTargetAdded",
    "ReferenceTargetDeleted", "ReferenceTargetChanged"]

/-! ## Reading -/

/-- Reads the move of a child from another node. -/
def childElsewhere : Fields.Reader (Shift Pointer × NodeId) := do
  let target ← PlaceNames.newChild.reader
  let moved ← .required "movedChild"
  let source ← PlaceNames.oldChild.reader
  return (.elsewhere target source, moved)

/-- Reads the move of a child from another containment. -/
def childSameOwner : Fields.Reader (Shift Pointer × NodeId) := do
  let owner ← .required "parent"
  let newFeature ← .required "newContainment"
  let newIndex ← .required "newIndex"
  let moved ← .required "movedChild"
  let oldFeature ← .required "oldContainment"
  let oldIndex ← .required "oldIndex"
  return (.sameOwner owner newFeature newIndex oldFeature oldIndex, moved)

/-- Reads the move of a child within a containment. -/
def childSameList : Fields.Reader (Shift Pointer × NodeId) := do
  let owner ← .required "parent"
  let feature ← .required "containment"
  let newIndex ← .required "newIndex"
  let moved ← .required "movedChild"
  let oldIndex ← .required "oldIndex"
  return (.sameList owner feature newIndex oldIndex, moved)

/-- Reads the move of an annotation from another node. -/
def annotationElsewhere : Fields.Reader (AnnotationShift × NodeId) := do
  let newOwner ← .required "newParent"
  let newIndex ← .required "newIndex"
  let moved ← .required "movedAnnotation"
  let oldOwner ← .required "oldParent"
  let oldIndex ← .required "oldIndex"
  return (.elsewhere ⟨newOwner, newIndex⟩ ⟨oldOwner, oldIndex⟩, moved)

/-- Reads the move of an annotation among those of a node. -/
def annotationSameOwner : Fields.Reader (AnnotationShift × NodeId) := do
  let owner ← .required "parent"
  let newIndex ← .required "newIndex"
  let moved ← .required "movedAnnotation"
  let oldIndex ← .required "oldIndex"
  return (.sameOwner owner newIndex oldIndex, moved)

/-- Reads the move of a child. -/
def childMovedReader (shift : Fields.Reader (Shift Pointer × NodeId)) : Fields.Reader Event := do
  let (shift, moved) ← shift
  return childMoved shift moved

/-- Reads the move of a child to the place of another one. -/
def childMovedAndReplacedReader (shift : Fields.Reader (Shift Pointer × NodeId)) :
    Fields.Reader Event := do
  let (shift, moved) ← shift
  let old ← Removal.reader "replacedChild" "replacedDescendants"
  return childMovedAndReplaced shift moved old

/-- Reads the move of an annotation. -/
def annotationMovedReader (shift : Fields.Reader (AnnotationShift × NodeId)) :
    Fields.Reader Event := do
  let (shift, moved) ← shift
  return annotationMoved shift moved

/-- Reads the move of an annotation to the place of another one. -/
def annotationMovedAndReplacedReader (shift : Fields.Reader (AnnotationShift × NodeId)) :
    Fields.Reader Event := do
  let (shift, moved) ← shift
  let old ← Removal.reader "replacedAnnotation" "replacedDescendants"
  return annotationMovedAndReplaced shift moved old

/-- Reads the move of an entry. -/
def entryMovedReader (shift : Fields.Reader (Shift Pointer)) : Fields.Reader Event := do
  let shift ← shift
  let moved ← EntryNames.moved.reader
  return entryMoved shift moved

/-- Reads the move of an entry to the place of another one. -/
def entryMovedAndReplacedReader (shift : Fields.Reader (Shift Pointer)) :
    Fields.Reader Event := do
  let shift ← shift
  let moved ← EntryNames.moved.reader
  let old ← EntryNames.replaced.reader
  return entryMovedAndReplaced shift moved old

/-- Reads a place among annotations. -/
def annotationPlace : Fields.Reader AnnotationPlace := do
  let owner ← .required "parent"
  let index ← .required "index"
  return ⟨owner, index⟩

/-- Reads the fields of an event of a kind. -/
def reader (kind : String) : Fields.Reader Event :=
  match kind with
  | "PartitionAdded" => return partitionAdded (← .required "newPartition")
  | "PartitionDeleted" =>
    return partitionDeleted (← Removal.reader "deletedPartition" "deletedDescendants")
  | "ClassifierChanged" => do
    let node ← .required "node"
    let new ← .required "newClassifier"
    let old ← .required "oldClassifier"
    return classifierChanged node new old
  | "PropertyAdded" => do
    let node ← .required "node"
    let property ← .required "property"
    let new ← .required "newValue"
    return propertyAdded node property new
  | "PropertyDeleted" => do
    let node ← .required "node"
    let property ← .required "property"
    let old ← .required "oldValue"
    return propertyDeleted node property old
  | "PropertyChanged" => do
    let node ← .required "node"
    let property ← .required "property"
    let new ← .required "newValue"
    let old ← .required "oldValue"
    return propertyChanged node property new old
  | "ChildAdded" => do
    let owner ← .required "parent"
    let new ← .required "newChild"
    let feature ← .required "containment"
    let index ← .required "index"
    return childAdded ⟨owner, feature, index⟩ new
  | "ChildDeleted" => do
    let old ← Removal.reader "deletedChild" "deletedDescendants"
    let place ← PlaceNames.child.reader
    return childDeleted place old
  | "ChildReplaced" => do
    let new ← .required "newChild"
    let old ← Removal.reader "replacedChild" "replacedDescendants"
    let place ← PlaceNames.child.reader
    return childReplaced place new old
  | "ChildMovedFromOtherContainment" => childMovedReader childElsewhere
  | "ChildMovedFromOtherContainmentInSameParent" => childMovedReader childSameOwner
  | "ChildMovedInSameContainment" => childMovedReader childSameList
  | "ChildMovedAndReplacedFromOtherContainment" => childMovedAndReplacedReader childElsewhere
  | "ChildMovedAndReplacedFromOtherContainmentInSameParent" =>
    childMovedAndReplacedReader childSameOwner
  | "ChildMovedAndReplacedInSameContainment" => childMovedAndReplacedReader childSameList
  | "AnnotationAdded" => do
    let owner ← .required "parent"
    let new ← .required "newAnnotation"
    let index ← .required "index"
    return annotationAdded ⟨owner, index⟩ new
  | "AnnotationDeleted" => do
    let old ← Removal.reader "deletedAnnotation" "deletedDescendants"
    let place ← annotationPlace
    return annotationDeleted place old
  | "AnnotationReplaced" => do
    let new ← .required "newAnnotation"
    let old ← Removal.reader "replacedAnnotation" "replacedDescendants"
    let place ← annotationPlace
    return annotationReplaced place new old
  | "AnnotationMovedFromOtherParent" => annotationMovedReader annotationElsewhere
  | "AnnotationMovedInSameParent" => annotationMovedReader annotationSameOwner
  | "AnnotationMovedAndReplacedFromOtherParent" =>
    annotationMovedAndReplacedReader annotationElsewhere
  | "AnnotationMovedAndReplacedInSameParent" =>
    annotationMovedAndReplacedReader annotationSameOwner
  | "ReferenceAdded" => do
    let place ← PlaceNames.entry.reader
    let new ← EntryNames.new.reader
    return entryAdded place new
  | "ReferenceDeleted" => do
    let place ← PlaceNames.entry.reader
    let old ← EntryNames.deleted.reader
    return entryDeleted place old
  | "ReferenceChanged" => do
    let place ← PlaceNames.entry.reader
    let new ← EntryNames.new.reader
    let old ← EntryNames.old.reader
    return entryChanged place new old
  | "EntryMovedFromOtherReference" => entryMovedReader entryElsewhere
  | "EntryMovedFromOtherReferenceInSameParent" => entryMovedReader entrySameOwner
  | "EntryMovedInSameReference" => entryMovedReader entrySameList
  | "EntryMovedAndReplacedFromOtherReference" => entryMovedAndReplacedReader entryElsewhere
  | "EntryMovedAndReplacedFromOtherReferenceInSameParent" =>
    entryMovedAndReplacedReader entrySameOwner
  | "EntryMovedAndReplacedInSameReference" => entryMovedAndReplacedReader entrySameList
  | "ReferenceResolveInfoAdded" => do
    let place ← PlaceNames.entry.reader
    let new ← .required "newResolveInfo"
    let target ← .optional "target"
    return resolveInfoAdded place new target
  | "ReferenceResolveInfoDeleted" => do
    let place ← PlaceNames.entry.reader
    let target ← .optional "target"
    let old ← .required "deletedResolveInfo"
    return resolveInfoDeleted place target old
  | "ReferenceResolveInfoChanged" => do
    let place ← PlaceNames.entry.reader
    let new ← .required "newResolveInfo"
    let target ← .optional "target"
    let old ← .required "oldResolveInfo"
    return resolveInfoChanged place new target old
  | "ReferenceTargetAdded" => do
    let place ← PlaceNames.entry.reader
    let new ← .required "newTarget"
    let resolveInfo ← .optional "resolveInfo"
    return targetAdded place new resolveInfo
  | "ReferenceTargetDeleted" => do
    let place ← PlaceNames.entry.reader
    let resolveInfo ← .optional "resolveInfo"
    let old ← .required "deletedTarget"
    return targetDeleted place resolveInfo old
  | "ReferenceTargetChanged" => do
    let place ← PlaceNames.entry.reader
    let new ← .required "newTarget"
    let resolveInfo ← .optional "resolveInfo"
    let old ← .required "oldTarget"
    return targetChanged place new resolveInfo old
  | _ => .refuse

/-- The fields of an event, with the name of its kind in front. -/
def tagged (e : Event) : List (String × Data) := ("messageKind", toData e.kind) :: e.fields

/-- Reads an event from fields among which the name of its kind stands. -/
def ofFields? (entries : List (Label × Data)) : Option Event :=
  kindOf? "messageKind" kinds reader entries

end Event

namespace EventPart

/-- The fields of an event with its sources. -/
def fields (part : EventPart) : List (String × Data) :=
  ("originCommands", toData part.origins) :: part.event.tagged ++ noteField part.note

/-- Reads an event with its sources. -/
def ofFields? (src : Source) (entries : List (Label × Data)) : Option EventPart :=
  (Data.flatFields? src entries ["originCommands", "message"]
    (do
      let origins : List CommandSource ← .required "originCommands"
      let note ← noteReader
      return (origins, note))
    Event.ofFields?).map fun ((origins, note), event) => ⟨origins, event, note⟩

instance : Wire EventPart where
  toData part := .object part.fields
  ofData src d :=
    match d.reached src with
    | .map entries => (Data.labels? src entries).bind (ofFields? src.inside)
    | _ => none

end EventPart

instance : Wire EventMessage where
  toData
    | .single part => .object (("shape", toData "single") :: part.fields)
    | .composite parts note => .object
      ([("shape", toData "composite"), ("parts", toData parts)] ++ noteField note)
  ofData src d :=
    (d.union? src "shape").bind fun (shape, fields) =>
      match (Label.ofData src shape).bind (Label.among ["single", "composite"]), fields with
      | some "single", .labelled entries => (EventPart.ofFields? .part entries).map .single
      | some "composite", fields =>
        Fields.Reader.whole
          (do
            let parts ← .required "parts"
            let note ← noteReader
            return .composite parts note)
          .part fields
      | _, _ => none

instance : Wire SequencedEvent where
  toData e := .object [("sequenceNumber", toData e.number), ("event", toData e.event)]
  ofData src d := d.record? src do
    let number ← .required "sequenceNumber"
    let event ← .required "event"
    return ⟨number, event⟩

end DeltaForest.Protocol
