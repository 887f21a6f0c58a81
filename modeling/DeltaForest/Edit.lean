import DeltaForest.Change

/-!
# Edits

An edit is an intention: what somebody wants to be different, without regard to the current state.
Planning an edit against a forest gives the change that it amounts to, or the reason why it cannot
be made. A change in turn says which edit it stands for: `Change.edit`.
-/

namespace DeltaForest

/-- An intention to change a forest. -/
inductive Edit
  | addPartition (tree : Subtree)
  | deletePartition (node : NodeId)
  | changeClassifier (node : NodeId) (new : Handle)
  | addProperty (node : NodeId) (property : Handle) (value : Value)
  | deleteProperty (node : NodeId) (property : Handle)
  | changeProperty (node : NodeId) (property : Handle) (value : Value)
  /-- Adds or changes a value, whichever applies. -/
  | setProperty (node : NodeId) (property : Handle) (value : Value)
  | addChild (place : Place Handle) (new : Subtree)
  | deleteChild (place : Place Handle) (old : NodeId)
  | replaceChild (place : Place Handle) (old : NodeId) (new : Subtree)
  | moveChild (target : Place Handle) (moved : NodeId)
  | moveAndReplaceChild (target : Place Handle) (moved old : NodeId)
  | addAnnotation (place : AnnotationPlace) (new : Subtree)
  | deleteAnnotation (place : AnnotationPlace) (old : NodeId)
  | replaceAnnotation (place : AnnotationPlace) (old : NodeId) (new : Subtree)
  | moveAnnotation (target : AnnotationPlace) (moved : NodeId)
  | moveAndReplaceAnnotation (target : AnnotationPlace) (moved old : NodeId)
  | addEntry (place : Place Handle) (new : Entry)
  | deleteEntry (place : Place Handle)
  | changeEntry (place : Place Handle) (new : Entry)
  | moveEntry (target source : Place Handle)
  | moveAndReplaceEntry (target source : Place Handle)
  | addResolveInfo (place : Place Handle) (info : String)
  | deleteResolveInfo (place : Place Handle)
  | changeResolveInfo (place : Place Handle) (info : String)
  | addTarget (place : Place Handle) (new : NodeId)
  | deleteTarget (place : Place Handle)
  | changeTarget (place : Place Handle) (new : NodeId)
  /-- Adds or changes a target, whichever applies. -/
  | setTarget (place : Place Handle) (new : NodeId)
  deriving DecidableEq, Inhabited

/-- The edit that a change stands for. What the change says about the state before it is left out,
    except for the ids of nodes that leave the forest. -/
def Change.edit : Change → Edit
  | partitionAdded tree => .addPartition tree
  | partitionDeleted tree => .deletePartition tree.root.id
  | classifierChanged node new _ => .changeClassifier node new
  | propertyAdded node property new => .addProperty node property new
  | propertyDeleted node property _ => .deleteProperty node property
  | propertyChanged node property new _ => .changeProperty node property new
  | childAdded place new => .addChild place new
  | childDeleted place old => .deleteChild place old.root.id
  | childReplaced place new old => .replaceChild place old.root.id new
  | childMoved shift moved => .moveChild shift.target moved
  | childMovedAndReplaced shift moved old => .moveAndReplaceChild shift.target moved old.root.id
  | annotationAdded place new => Edit.addAnnotation place new
  | annotationDeleted place old => Edit.deleteAnnotation place old.root.id
  | annotationReplaced place new old => Edit.replaceAnnotation place old.root.id new
  | annotationMoved shift moved => Edit.moveAnnotation shift.target moved
  | annotationMovedAndReplaced shift moved old =>
    Edit.moveAndReplaceAnnotation shift.target moved old.root.id
  | entryAdded place new => .addEntry place new
  | entryDeleted place _ => .deleteEntry place
  | entryChanged place new _ => .changeEntry place new
  | entryMoved shift _ => .moveEntry shift.target shift.source
  | entryMovedAndReplaced shift .. => .moveAndReplaceEntry shift.target shift.source
  | resolveInfoAdded place new _ => .addResolveInfo place new
  | resolveInfoDeleted place .. => .deleteResolveInfo place
  | resolveInfoChanged place new .. => .changeResolveInfo place new
  | targetAdded place new _ => .addTarget place new
  | targetDeleted place .. => .deleteTarget place
  | targetChanged place new .. => .changeTarget place new

end DeltaForest
