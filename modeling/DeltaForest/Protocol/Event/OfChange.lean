import DeltaForest.Chunk.Codec
import DeltaForest.Change
import DeltaForest.Protocol.Event

/-!
# The event for a change

Everything that a change says, with pointers in place of handles, chunks in place of new subtrees
and ids in place of subtrees that are gone.
-/

namespace DeltaForest.Protocol

/-- A subtree that is gone, by its ids. -/
def Removal.ofSubtree (s : Subtree) : Removal := ⟨s.root.id, s.descendantIds⟩

namespace Event

/-- The event for a change. -/
def ofChange (types : TypeRegistry) : Change → Except Fault Event
  | .partitionAdded tree => return partitionAdded (← Chunk.ofSubtree types tree)
  | .partitionDeleted tree => return partitionDeleted (.ofSubtree tree)
  | .classifierChanged node new old =>
    return classifierChanged node (← types.pointer new) (← types.pointer old)
  | .propertyAdded node property new =>
    return propertyAdded node (← types.pointer property) new.text
  | .propertyDeleted node property old =>
    return propertyDeleted node (← types.pointer property) old.text
  | .propertyChanged node property new old =>
    return propertyChanged node (← types.pointer property) new.text old.text
  | .childAdded place new =>
    return childAdded (← place.rename types.pointer) (← Chunk.ofSubtree types new)
  | .childDeleted place old =>
    return childDeleted (← place.rename types.pointer) (.ofSubtree old)
  | .childReplaced place new old =>
    return childReplaced (← place.rename types.pointer) (← Chunk.ofSubtree types new)
      (.ofSubtree old)
  | .childMoved shift moved => return childMoved (← shift.rename types.pointer) moved
  | .childMovedAndReplaced shift moved old =>
    return childMovedAndReplaced (← shift.rename types.pointer) moved (.ofSubtree old)
  | .annotationAdded place new => return annotationAdded place (← Chunk.ofSubtree types new)
  | .annotationDeleted place old => return annotationDeleted place (.ofSubtree old)
  | .annotationReplaced place new old =>
    return annotationReplaced place (← Chunk.ofSubtree types new) (.ofSubtree old)
  | .annotationMoved shift moved => return annotationMoved shift moved
  | .annotationMovedAndReplaced shift moved old =>
    return annotationMovedAndReplaced shift moved (.ofSubtree old)
  | .entryAdded place new => return entryAdded (← place.rename types.pointer) new
  | .entryDeleted place old => return entryDeleted (← place.rename types.pointer) old
  | .entryChanged place new old => return entryChanged (← place.rename types.pointer) new old
  | .entryMoved shift moved => return entryMoved (← shift.rename types.pointer) moved
  | .entryMovedAndReplaced shift moved old =>
    return entryMovedAndReplaced (← shift.rename types.pointer) moved old
  | .resolveInfoAdded place new target =>
    return resolveInfoAdded (← place.rename types.pointer) new target
  | .resolveInfoDeleted place target old =>
    return resolveInfoDeleted (← place.rename types.pointer) target old
  | .resolveInfoChanged place new target old =>
    return resolveInfoChanged (← place.rename types.pointer) new target old
  | .targetAdded place new resolveInfo =>
    return targetAdded (← place.rename types.pointer) new resolveInfo
  | .targetDeleted place resolveInfo old =>
    return targetDeleted (← place.rename types.pointer) resolveInfo old
  | .targetChanged place new resolveInfo old =>
    return targetChanged (← place.rename types.pointer) new resolveInfo old

end Event

end DeltaForest.Protocol
