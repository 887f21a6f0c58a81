import DeltaForest.Change
import DeltaForest.Plan.Check

/-!
# Planning: annotations
-/

namespace DeltaForest

namespace Model

variable (m : Model)

/-- Plans a new annotation. -/
def planAddAnnotation (place : AnnotationPlace) (new : Subtree) : Except Fault Change := do
  let n ← m.node place.owner
  checkInsert n.annotations place.owner .annotations place.index
  m.checkAnnotation new.root
  m.checkNew new
  return .annotationAdded place new

/-- The annotation at a place, which has to be the one named. -/
def annotationAt (place : AnnotationPlace) (named : NodeId) : Except Fault Unit := do
  let n ← m.node place.owner
  checkExpected named (← elementAt n.annotations place.owner .annotations place.index)

/-- Plans the end of an annotation. -/
def planDeleteAnnotation (place : AnnotationPlace) (old : NodeId) : Except Fault Change := do
  m.annotationAt place old
  return .annotationDeleted place (← m.leaving old)

/-- Plans a new annotation in the place of another one. -/
def planReplaceAnnotation (place : AnnotationPlace) (old : NodeId) (new : Subtree) :
    Except Fault Change := do
  m.annotationAt place old
  m.checkAnnotation new.root
  -- The old annotation is still there, so references to it pass the check.
  m.checkNew new
  return .annotationReplaced place new (← m.leaving old)

/-- Plans another place for an annotation. -/
def planMoveAnnotation (target : AnnotationPlace) (moved : NodeId) : Except Fault Change := do
  let n ← m.node target.owner
  let source ← m.locateAnnotation moved
  m.checkNotBelow moved target.owner
  -- In its own list the annotation cannot land behind the end.
  if source.owner = target.owner then
    let _ ← elementAt n.annotations target.owner .annotations target.index
  else
    checkInsert n.annotations target.owner .annotations target.index
  return .annotationMoved (.between target source) moved

/-- Plans to move an annotation to the place of another one, which is deleted. -/
def planMoveAndReplaceAnnotation (target : AnnotationPlace) (moved old : NodeId) :
    Except Fault Change := do
  m.annotationAt target old
  let source ← m.locateAnnotation moved
  m.checkNotBelow moved target.owner
  m.checkNotReplacingOwner moved old
  return .annotationMovedAndReplaced (.between target source) moved (← m.leaving old)

end Model

end DeltaForest
