import DeltaForest.Place
import DeltaForest.Subtree

/-!
# Changes

A change is one step in the life of a forest. It says what becomes different and also what was
there before: old values, old places, and whole subtrees where nodes leave the forest. A change
therefore fits only the state that it was planned for.

A change together with its origin is what a forest raises: `Raised`.
-/

namespace DeltaForest

/-- One step in the life of a forest. -/
inductive Change
  | partitionAdded (tree : Subtree)
  | partitionDeleted (tree : Subtree)
  | classifierChanged (node : NodeId) (new old : Handle)
  | propertyAdded (node : NodeId) (property : Handle) (new : Value)
  | propertyDeleted (node : NodeId) (property : Handle) (old : Value)
  | propertyChanged (node : NodeId) (property : Handle) (new old : Value)
  | childAdded (place : Place Handle) (new : Subtree)
  | childDeleted (place : Place Handle) (old : Subtree)
  | childReplaced (place : Place Handle) (new old : Subtree)
  | childMoved (shift : Shift Handle) (moved : NodeId)
  /-- A child takes the place of another one, which is deleted. -/
  | childMovedAndReplaced (shift : Shift Handle) (moved : NodeId) (old : Subtree)
  | annotationAdded (place : AnnotationPlace) (new : Subtree)
  | annotationDeleted (place : AnnotationPlace) (old : Subtree)
  | annotationReplaced (place : AnnotationPlace) (new old : Subtree)
  | annotationMoved (shift : AnnotationShift) (moved : NodeId)
  /-- An annotation takes the place of another one, which is deleted. -/
  | annotationMovedAndReplaced (shift : AnnotationShift) (moved : NodeId) (old : Subtree)
  | entryAdded (place : Place Handle) (new : Entry)
  | entryDeleted (place : Place Handle) (old : Entry)
  | entryChanged (place : Place Handle) (new old : Entry)
  | entryMoved (shift : Shift Handle) (moved : Entry)
  /-- An entry takes the place of another one, which is deleted. -/
  | entryMovedAndReplaced (shift : Shift Handle) (moved old : Entry)
  | resolveInfoAdded (place : Place Handle) (new : String) (target : Option NodeId)
  | resolveInfoDeleted (place : Place Handle) (target : Option NodeId) (old : String)
  | resolveInfoChanged (place : Place Handle) (new : String) (target : Option NodeId)
      (old : String)
  | targetAdded (place : Place Handle) (new : NodeId) (resolveInfo : Option String)
  | targetDeleted (place : Place Handle) (resolveInfo : Option String) (old : NodeId)
  | targetChanged (place : Place Handle) (new : NodeId) (resolveInfo : Option String)
      (old : NodeId)
  deriving DecidableEq, Inhabited

/-- What a change is about. -/
inductive ChangeCategory
  | partition
  | classifier
  | property
  | containment
  | annotation
  | reference
  deriving DecidableEq, Repr, Inhabited

namespace ChangeCategory

/-- The word for a category. -/
def word : ChangeCategory → String
  | partition => "partition"
  | classifier => "classifier"
  | property => "property"
  | containment => "containment"
  | annotation => "annotation"
  | reference => "reference"

/-- All categories. -/
def all : List ChangeCategory :=
  [partition, classifier, property, containment, annotation, reference]

/-- The category that a word stands for. -/
def ofWord? (s : String) : Option ChangeCategory := all.find? (·.word = s)

end ChangeCategory

namespace Change

/-- The name of the kind of a change. -/
def kind : Change → String
  | partitionAdded _ => "PartitionAdded"
  | partitionDeleted _ => "PartitionDeleted"
  | classifierChanged .. => "ClassifierChanged"
  | propertyAdded .. => "PropertyAdded"
  | propertyDeleted .. => "PropertyDeleted"
  | propertyChanged .. => "PropertyChanged"
  | childAdded .. => "ChildAdded"
  | childDeleted .. => "ChildDeleted"
  | childReplaced .. => "ChildReplaced"
  | childMoved shift _ => "ChildMoved" ++ shift.reach "Containment"
  | childMovedAndReplaced shift .. => "ChildMovedAndReplaced" ++ shift.reach "Containment"
  | annotationAdded .. => "AnnotationAdded"
  | annotationDeleted .. => "AnnotationDeleted"
  | annotationReplaced .. => "AnnotationReplaced"
  | annotationMoved shift _ => "AnnotationMoved" ++ shift.reach
  | annotationMovedAndReplaced shift .. => "AnnotationMovedAndReplaced" ++ shift.reach
  | entryAdded .. => "ReferenceAdded"
  | entryDeleted .. => "ReferenceDeleted"
  | entryChanged .. => "ReferenceChanged"
  | entryMoved shift _ => "EntryMoved" ++ shift.reach "Reference"
  | entryMovedAndReplaced shift .. => "EntryMovedAndReplaced" ++ shift.reach "Reference"
  | resolveInfoAdded .. => "ReferenceResolveInfoAdded"
  | resolveInfoDeleted .. => "ReferenceResolveInfoDeleted"
  | resolveInfoChanged .. => "ReferenceResolveInfoChanged"
  | targetAdded .. => "ReferenceTargetAdded"
  | targetDeleted .. => "ReferenceTargetDeleted"
  | targetChanged .. => "ReferenceTargetChanged"

/-- What a change is about. -/
def category : Change → ChangeCategory
  | partitionAdded _ | partitionDeleted _ => .partition
  | classifierChanged .. => .classifier
  | propertyAdded .. | propertyDeleted .. | propertyChanged .. => .property
  | childAdded .. | childDeleted .. | childReplaced .. | childMoved ..
  | childMovedAndReplaced .. => .containment
  | annotationAdded .. | annotationDeleted .. | annotationReplaced .. | annotationMoved ..
  | annotationMovedAndReplaced .. => ChangeCategory.annotation
  | entryAdded .. | entryDeleted .. | entryChanged .. | entryMoved .. | entryMovedAndReplaced ..
  | resolveInfoAdded .. | resolveInfoDeleted .. | resolveInfoChanged .. | targetAdded ..
  | targetDeleted .. | targetChanged .. => .reference

end Change

/-- A change with its origin. -/
structure Raised where
  origin : Origin
  change : Change
  deriving DecidableEq, Inhabited

end DeltaForest
