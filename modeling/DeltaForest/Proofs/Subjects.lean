import DeltaForest.Edit
import DeltaForest.Protocol.Command
import DeltaForest.Protocol.Event

/-!
# What a change is about

There are many kinds of changes, and for each kind an edit, a command and an event. An argument that
goes through all of them falls into a few parts, as the changes with one subject are planned, told
and read in much the same way: a node as a whole, the value of a property, a child, an annotation,
an entry of a reference, or one half of such an entry. A theorem about all kinds is put together
from one lemma for each subject.
-/

namespace DeltaForest

/-- What a change, or whatever stands for one, is about. -/
inductive Subject
  /-- A partition, or the classifier of a node. -/
  | node
  | property
  | child
  | annotation
  | entry
  /-- The resolve info or the target of an entry. -/
  | half

/-- What a change is about. -/
def Change.subject : Change → Subject
  | partitionAdded _ | partitionDeleted _ | classifierChanged .. => .node
  | propertyAdded .. | propertyDeleted .. | propertyChanged .. => .property
  | childAdded .. | childDeleted .. | childReplaced .. | childMoved ..
  | childMovedAndReplaced .. => .child
  | annotationAdded .. | annotationDeleted .. | annotationReplaced .. | annotationMoved ..
  | annotationMovedAndReplaced .. => Subject.annotation
  | entryAdded .. | entryDeleted .. | entryChanged .. | entryMoved .. | entryMovedAndReplaced .. =>
    .entry
  | resolveInfoAdded .. | resolveInfoDeleted .. | resolveInfoChanged .. | targetAdded ..
  | targetDeleted .. | targetChanged .. => .half

/-- What an edit is about. -/
def Edit.subject : Edit → Subject
  | addPartition _ | deletePartition _ | changeClassifier .. => .node
  | addProperty .. | deleteProperty .. | changeProperty .. | setProperty .. => .property
  | addChild .. | deleteChild .. | replaceChild .. | moveChild .. | moveAndReplaceChild .. => .child
  | addAnnotation .. | deleteAnnotation .. | replaceAnnotation .. | moveAnnotation ..
  | moveAndReplaceAnnotation .. => Subject.annotation
  | addEntry .. | deleteEntry _ | changeEntry .. | moveEntry .. | moveAndReplaceEntry .. => .entry
  | addResolveInfo .. | deleteResolveInfo _ | changeResolveInfo .. | addTarget ..
  | deleteTarget _ | changeTarget .. | setTarget .. => .half

namespace Protocol

/-- What a command is about. -/
def Command.subject : Command → Subject
  | addPartition _ | deletePartition _ | changeClassifier .. => .node
  | addProperty .. | deleteProperty .. | changeProperty .. => .property
  | addChild .. | deleteChild .. | replaceChild .. | moveChild .. | moveAndReplaceChild .. => .child
  | addAnnotation .. | deleteAnnotation .. | replaceAnnotation .. | moveAnnotation ..
  | moveAndReplaceAnnotation .. => Subject.annotation
  | addEntry .. | deleteEntry _ | changeEntry .. | moveEntry _ | moveAndReplaceEntry _ => .entry
  | addResolveInfo .. | deleteResolveInfo _ | changeResolveInfo .. | addTarget ..
  | deleteTarget _ | changeTarget .. => .half

/-- What an event is about. -/
def Event.subject : Event → Subject
  | partitionAdded _ | partitionDeleted _ | classifierChanged .. => .node
  | propertyAdded .. | propertyDeleted .. | propertyChanged .. => .property
  | childAdded .. | childDeleted .. | childReplaced .. | childMoved ..
  | childMovedAndReplaced .. => .child
  | annotationAdded .. | annotationDeleted .. | annotationReplaced .. | annotationMoved ..
  | annotationMovedAndReplaced .. => Subject.annotation
  | entryAdded .. | entryDeleted .. | entryChanged .. | entryMoved .. | entryMovedAndReplaced .. =>
    .entry
  | resolveInfoAdded .. | resolveInfoDeleted .. | resolveInfoChanged .. | targetAdded ..
  | targetDeleted .. | targetChanged .. => .half

end Protocol

end DeltaForest
