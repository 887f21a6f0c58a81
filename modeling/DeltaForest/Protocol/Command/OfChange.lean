import DeltaForest.Chunk.Codec
import DeltaForest.Change
import DeltaForest.Protocol.Command

/-!
# The command for a change

The request that would make a change somewhere else: what the change says about the state before
it is left out, except for the ids of the nodes that go.
-/

namespace DeltaForest.Protocol

namespace Destination

/-- Where a child goes in a move. -/
def ofShift : Shift Pointer → Destination
  | .elsewhere target _ => elsewhere target
  | .sameOwner _ feature index _ _ => sameOwner feature index
  | .sameList _ _ index _ => sameList index

end Destination

namespace AnnotationDestination

/-- Where an annotation goes in a move. -/
def ofShift : AnnotationShift → AnnotationDestination
  | .elsewhere target _ => elsewhere target
  | .sameOwner _ index _ => sameOwner index

end AnnotationDestination

namespace Command

/-- The command for a change. -/
def ofChange (types : TypeRegistry) : Change → Except Fault Command
  | .partitionAdded tree => return addPartition (← Chunk.ofSubtree types tree)
  | .partitionDeleted tree => return deletePartition tree.root.id
  | .classifierChanged node new _ => return changeClassifier node (← types.pointer new)
  | .propertyAdded node property new =>
    return addProperty node (← types.pointer property) new.text
  | .propertyDeleted node property _ => return deleteProperty node (← types.pointer property)
  | .propertyChanged node property new _ =>
    return changeProperty node (← types.pointer property) new.text
  | .childAdded place new =>
    return addChild (← place.rename types.pointer) (← Chunk.ofSubtree types new)
  | .childDeleted place old => return deleteChild (← place.rename types.pointer) old.root.id
  | .childReplaced place new old =>
    return replaceChild (← place.rename types.pointer) old.root.id
      (← Chunk.ofSubtree types new)
  | .childMoved shift moved =>
    return moveChild (.ofShift (← shift.rename types.pointer)) moved
  | .childMovedAndReplaced shift moved old =>
    return moveAndReplaceChild (.ofShift (← shift.rename types.pointer)) moved old.root.id
  | .annotationAdded place new => return addAnnotation place (← Chunk.ofSubtree types new)
  | .annotationDeleted place old => return deleteAnnotation place old.root.id
  | .annotationReplaced place new old =>
    return replaceAnnotation place old.root.id (← Chunk.ofSubtree types new)
  | .annotationMoved shift moved => return moveAnnotation (.ofShift shift) moved
  | .annotationMovedAndReplaced shift moved old =>
    return moveAndReplaceAnnotation (.ofShift shift) moved old.root.id
  | .entryAdded place new => return addEntry (← place.rename types.pointer) new
  | .entryDeleted place _ => return deleteEntry (← place.rename types.pointer)
  | .entryChanged place new _ => return changeEntry (← place.rename types.pointer) new
  | .entryMoved shift _ => return moveEntry (← shift.rename types.pointer)
  | .entryMovedAndReplaced shift _ _ =>
    return moveAndReplaceEntry (← shift.rename types.pointer)
  | .resolveInfoAdded place new _ => return addResolveInfo (← place.rename types.pointer) new
  | .resolveInfoDeleted place _ _ => return deleteResolveInfo (← place.rename types.pointer)
  | .resolveInfoChanged place new _ _ =>
    return changeResolveInfo (← place.rename types.pointer) new
  | .targetAdded place new _ => return addTarget (← place.rename types.pointer) new
  | .targetDeleted place _ _ => return deleteTarget (← place.rename types.pointer)
  | .targetChanged place new _ _ => return changeTarget (← place.rename types.pointer) new

end Command

end DeltaForest.Protocol
