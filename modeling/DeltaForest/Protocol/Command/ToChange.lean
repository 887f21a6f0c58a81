import DeltaForest.Protocol.Command
import DeltaForest.Protocol.Resolve

/-!
# What a command amounts to

A command is first understood as an edit and then planned. A move whose command leaves out the
present place is completed from the model. The change has to be of the kind that the command names,
so that a move turns out to go as far as the sender thought.
-/

namespace DeltaForest.Protocol

namespace Command

/-- The edit that a command asks for. -/
def toEdit (m : Model) : Command → Except Fault Edit
  | addPartition new => return .addPartition (← m.resolveChunk new)
  | deletePartition old => return .deletePartition old
  | changeClassifier node new => return .changeClassifier node (← m.resolveClassifier new)
  | addProperty node property value => do
    let (property, value) ← m.resolveValue property value
    return .addProperty node property value
  | deleteProperty node property =>
    return .deleteProperty node (← m.resolveFeature .property property)
  | changeProperty node property value => do
    let (property, value) ← m.resolveValue property value
    return .changeProperty node property value
  | addChild place new => do
    let place ← place.rename (m.resolveFeature .containment)
    return .addChild place (← m.resolveChunk new)
  | deleteChild place old =>
    return .deleteChild (← place.rename (m.resolveFeature .containment)) old
  | replaceChild place old new => do
    let place ← place.rename (m.resolveFeature .containment)
    return .replaceChild place old (← m.resolveChunk new)
  | moveChild target moved => return .moveChild (← destination target moved) moved
  | moveAndReplaceChild target moved old =>
    return .moveAndReplaceChild (← destination target moved) moved old
  | addAnnotation place new => return Edit.addAnnotation place (← m.resolveChunk new)
  | deleteAnnotation place old => return Edit.deleteAnnotation place old
  | replaceAnnotation place old new =>
    return Edit.replaceAnnotation place old (← m.resolveChunk new)
  | moveAnnotation target moved =>
    return Edit.moveAnnotation (← annotationDestination target moved) moved
  | moveAndReplaceAnnotation target moved old =>
    return Edit.moveAndReplaceAnnotation (← annotationDestination target moved) moved old
  | addEntry place new => do
    let place ← place.rename (m.resolveFeature .reference)
    return .addEntry place (← new.checked)
  | deleteEntry place => return .deleteEntry (← place.rename (m.resolveFeature .reference))
  | changeEntry place new => do
    let place ← place.rename (m.resolveFeature .reference)
    return .changeEntry place (← new.checked)
  | moveEntry shift => do
    let shift ← shift.rename (m.resolveFeature .reference)
    return .moveEntry shift.target shift.source
  | moveAndReplaceEntry shift => do
    let shift ← shift.rename (m.resolveFeature .reference)
    return .moveAndReplaceEntry shift.target shift.source
  | addResolveInfo place info =>
    return .addResolveInfo (← place.rename (m.resolveFeature .reference)) info
  | deleteResolveInfo place =>
    return .deleteResolveInfo (← place.rename (m.resolveFeature .reference))
  | changeResolveInfo place info =>
    return .changeResolveInfo (← place.rename (m.resolveFeature .reference)) info
  | addTarget place new => return .addTarget (← place.rename (m.resolveFeature .reference)) new
  | deleteTarget place => return .deleteTarget (← place.rename (m.resolveFeature .reference))
  | changeTarget place new =>
    return .changeTarget (← place.rename (m.resolveFeature .reference)) new
where
  /-- The place where a child is to go. -/
  destination (target : Destination) (moved : NodeId) : Except Fault (Place Handle) :=
    match target with
    | .elsewhere place => place.rename (m.resolveFeature .containment)
    | .sameOwner feature index => do
      let source ← m.locateChild moved
      return ⟨source.owner, ← m.resolveFeature .containment feature, index⟩
    | .sameList index => do
      let source ← m.locateChild moved
      return { source with index := index }
  /-- The place where an annotation is to go. -/
  annotationDestination (target : AnnotationDestination) (moved : NodeId) :
      Except Fault AnnotationPlace :=
    match target with
    | .elsewhere place => .ok place
    | .sameOwner index => do
      let source ← m.locateAnnotation moved
      return { source with index := index }

/-- The name of the kind of changes that a command asks for. -/
def changeKind : Command → String
  | addPartition _ => "PartitionAdded"
  | deletePartition _ => "PartitionDeleted"
  | changeClassifier .. => "ClassifierChanged"
  | addProperty .. => "PropertyAdded"
  | deleteProperty .. => "PropertyDeleted"
  | changeProperty .. => "PropertyChanged"
  | addChild .. => "ChildAdded"
  | deleteChild .. => "ChildDeleted"
  | replaceChild .. => "ChildReplaced"
  | moveChild target _ => "ChildMoved" ++ target.reach
  | moveAndReplaceChild target .. => "ChildMovedAndReplaced" ++ target.reach
  | addAnnotation .. => "AnnotationAdded"
  | deleteAnnotation .. => "AnnotationDeleted"
  | replaceAnnotation .. => "AnnotationReplaced"
  | moveAnnotation target _ => "AnnotationMoved" ++ target.reach
  | moveAndReplaceAnnotation target .. => "AnnotationMovedAndReplaced" ++ target.reach
  | addEntry .. => "ReferenceAdded"
  | deleteEntry _ => "ReferenceDeleted"
  | changeEntry .. => "ReferenceChanged"
  | moveEntry shift => "EntryMoved" ++ shift.reach "Reference"
  | moveAndReplaceEntry shift => "EntryMovedAndReplaced" ++ shift.reach "Reference"
  | addResolveInfo .. => "ReferenceResolveInfoAdded"
  | deleteResolveInfo _ => "ReferenceResolveInfoDeleted"
  | changeResolveInfo .. => "ReferenceResolveInfoChanged"
  | addTarget .. => "ReferenceTargetAdded"
  | deleteTarget _ => "ReferenceTargetDeleted"
  | changeTarget .. => "ReferenceTargetChanged"

/-- The change that a command amounts to. -/
def toChange (m : Model) (c : Command) : Except Fault Change := do
  (← m.plan (← c.toEdit m)).checkKind c.changeKind

end Command

/-- The change that a command of a participation amounts to, with the command as its origin. -/
def CommandPart.toRaised (participation : ParticipationId) (m : Model) (part : CommandPart) :
    Except Fault Raised := do
  return ⟨.commands [⟨participation, part.id⟩], ← part.command.toChange m⟩

end DeltaForest.Protocol
