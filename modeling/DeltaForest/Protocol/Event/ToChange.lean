import DeltaForest.Protocol.Event
import DeltaForest.Protocol.Resolve

/-!
# What an event amounts to

An event is understood as an edit from what it says about the new state, and planned anew: what it
says about the state before is taken from the model and not from the event. The change has to be
of the kind that the event names.
-/

namespace DeltaForest.Protocol

namespace Event

/-- The edit that an event tells of. -/
def toEdit (m : Model) : Event → Except Fault Edit
  | partitionAdded new => return .addPartition (← m.resolveChunk new)
  | partitionDeleted old => return .deletePartition old.root
  | classifierChanged node new _ => return .changeClassifier node (← m.resolveClassifier new)
  | propertyAdded node property new => do
    let (property, value) ← m.resolveValue property new
    return .addProperty node property value
  | propertyDeleted node property _ =>
    return .deleteProperty node (← m.resolveFeature .property property)
  | propertyChanged node property new _ => do
    let (property, value) ← m.resolveValue property new
    return .changeProperty node property value
  | childAdded place new => do
    let place ← place.rename (m.resolveFeature .containment)
    return .addChild place (← m.resolveChunk new)
  | childDeleted place old =>
    return .deleteChild (← place.rename (m.resolveFeature .containment)) old.root
  | childReplaced place new old => do
    let place ← place.rename (m.resolveFeature .containment)
    return .replaceChild place old.root (← m.resolveChunk new)
  | childMoved shift moved =>
    return .moveChild (← shift.target.rename (m.resolveFeature .containment)) moved
  | childMovedAndReplaced shift moved old =>
    return .moveAndReplaceChild (← shift.target.rename (m.resolveFeature .containment)) moved
      old.root
  | annotationAdded place new => return Edit.addAnnotation place (← m.resolveChunk new)
  | annotationDeleted place old => return Edit.deleteAnnotation place old.root
  | annotationReplaced place new old =>
    return Edit.replaceAnnotation place old.root (← m.resolveChunk new)
  | annotationMoved shift moved => return Edit.moveAnnotation shift.target moved
  | annotationMovedAndReplaced shift moved old =>
    return Edit.moveAndReplaceAnnotation shift.target moved old.root
  | entryAdded place new => do
    let place ← place.rename (m.resolveFeature .reference)
    return .addEntry place (← new.checked)
  | entryDeleted place _ => return .deleteEntry (← place.rename (m.resolveFeature .reference))
  | entryChanged place new _ => do
    let place ← place.rename (m.resolveFeature .reference)
    return .changeEntry place (← new.checked)
  | entryMoved shift _ => do
    let shift ← shift.rename (m.resolveFeature .reference)
    return .moveEntry shift.target shift.source
  | entryMovedAndReplaced shift _ _ => do
    let shift ← shift.rename (m.resolveFeature .reference)
    return .moveAndReplaceEntry shift.target shift.source
  | resolveInfoAdded place new _ =>
    return .addResolveInfo (← place.rename (m.resolveFeature .reference)) new
  | resolveInfoDeleted place _ _ =>
    return .deleteResolveInfo (← place.rename (m.resolveFeature .reference))
  | resolveInfoChanged place new _ _ =>
    return .changeResolveInfo (← place.rename (m.resolveFeature .reference)) new
  | targetAdded place new _ =>
    return .addTarget (← place.rename (m.resolveFeature .reference)) new
  | targetDeleted place _ _ =>
    return .deleteTarget (← place.rename (m.resolveFeature .reference))
  | targetChanged place new _ _ =>
    return .changeTarget (← place.rename (m.resolveFeature .reference)) new

/-- The change that an event amounts to. -/
def toChange (m : Model) (e : Event) : Except Fault Change := do
  (← m.plan (← e.toEdit m)).checkKind e.kind

end Event

/-- The change that an event amounts to, with the origins that it carries. -/
def EventPart.toRaised (m : Model) (part : EventPart) : Except Fault Raised := do
  return ⟨.commands part.origins, ← part.event.toChange m⟩

end DeltaForest.Protocol
