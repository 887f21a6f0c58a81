import DeltaForest.Chunk
import DeltaForest.Place
import DeltaForest.Protocol.Note

/-!
# Events

An event tells others of a change that has been made. Unlike a command it also says what was there
before: old values, old places, and of a subtree that is gone the id of its root and the ids below
it. An event carries the sources of the commands from which the change stems.

Events are numbered in the order in which they are sent, so that a receiver can tell whether one
is missing or comes twice.
-/

namespace DeltaForest.Protocol

/-- A subtree that is gone. -/
structure Removal where
  root : NodeId
  descendants : List NodeId
  deriving DecidableEq, Repr, Inhabited

/-- A change that has been made, as told to others. -/
inductive Event
  | partitionAdded (new : Chunk)
  | partitionDeleted (old : Removal)
  | classifierChanged (node : NodeId) (new old : Pointer)
  | propertyAdded (node : NodeId) (property : Pointer) (new : String)
  | propertyDeleted (node : NodeId) (property : Pointer) (old : String)
  | propertyChanged (node : NodeId) (property : Pointer) (new old : String)
  | childAdded (place : Place Pointer) (new : Chunk)
  | childDeleted (place : Place Pointer) (old : Removal)
  | childReplaced (place : Place Pointer) (new : Chunk) (old : Removal)
  | childMoved (shift : Shift Pointer) (moved : NodeId)
  | childMovedAndReplaced (shift : Shift Pointer) (moved : NodeId) (old : Removal)
  | annotationAdded (place : AnnotationPlace) (new : Chunk)
  | annotationDeleted (place : AnnotationPlace) (old : Removal)
  | annotationReplaced (place : AnnotationPlace) (new : Chunk) (old : Removal)
  | annotationMoved (shift : AnnotationShift) (moved : NodeId)
  | annotationMovedAndReplaced (shift : AnnotationShift) (moved : NodeId) (old : Removal)
  | entryAdded (place : Place Pointer) (new : Entry)
  | entryDeleted (place : Place Pointer) (old : Entry)
  | entryChanged (place : Place Pointer) (new old : Entry)
  | entryMoved (shift : Shift Pointer) (moved : Entry)
  | entryMovedAndReplaced (shift : Shift Pointer) (moved old : Entry)
  | resolveInfoAdded (place : Place Pointer) (new : String) (target : Option NodeId)
  | resolveInfoDeleted (place : Place Pointer) (target : Option NodeId) (old : String)
  | resolveInfoChanged (place : Place Pointer) (new : String) (target : Option NodeId)
      (old : String)
  | targetAdded (place : Place Pointer) (new : NodeId) (resolveInfo : Option String)
  | targetDeleted (place : Place Pointer) (resolveInfo : Option String) (old : NodeId)
  | targetChanged (place : Place Pointer) (new : NodeId) (resolveInfo : Option String)
      (old : NodeId)
  deriving DecidableEq, Repr, Inhabited

/-- The name of the kind of an event. -/
def Event.kind : Event → String
  | partitionAdded _ => "PartitionAdded"
  | partitionDeleted _ => "PartitionDeleted"
  | classifierChanged .. => "ClassifierChanged"
  | propertyAdded .. => "PropertyAdded"
  | propertyDeleted .. => "PropertyDeleted"
  | propertyChanged .. => "PropertyChanged"
  | childAdded .. => "ChildAdded"
  | childDeleted .. => "ChildDeleted"
  | childReplaced .. => "ChildReplaced"
  | childMoved shift _ => "ChildMoved" ++ shift.reach "Containment"
  | childMovedAndReplaced shift .. => "ChildMovedAndReplaced" ++ shift.reach "Containment"
  | annotationAdded .. => "AnnotationAdded"
  | annotationDeleted .. => "AnnotationDeleted"
  | annotationReplaced .. => "AnnotationReplaced"
  | annotationMoved shift _ => "AnnotationMoved" ++ shift.reach
  | annotationMovedAndReplaced shift .. => "AnnotationMovedAndReplaced" ++ shift.reach
  | entryAdded .. => "ReferenceAdded"
  | entryDeleted .. => "ReferenceDeleted"
  | entryChanged .. => "ReferenceChanged"
  | entryMoved shift _ => "EntryMoved" ++ shift.reach "Reference"
  | entryMovedAndReplaced shift .. => "EntryMovedAndReplaced" ++ shift.reach "Reference"
  | resolveInfoAdded .. => "ReferenceResolveInfoAdded"
  | resolveInfoDeleted .. => "ReferenceResolveInfoDeleted"
  | resolveInfoChanged .. => "ReferenceResolveInfoChanged"
  | targetAdded .. => "ReferenceTargetAdded"
  | targetDeleted .. => "ReferenceTargetDeleted"
  | targetChanged .. => "ReferenceTargetChanged"

/-- An event with the sources of the commands from which the change stems. -/
structure EventPart where
  origins : List CommandSource
  event : Event
  note : Option Note
  deriving DecidableEq, Repr, Inhabited

/-- What is sent: a single event or a bundle. -/
inductive EventMessage
  | single (part : EventPart)
  | composite (parts : List EventPart) (note : Option Note)
  deriving DecidableEq, Repr, Inhabited

namespace EventMessage

/-- The events in a message. -/
def parts : EventMessage → List EventPart
  | single part => [part]
  | composite parts _ => parts

/-- The name of the kind of a message. -/
def kind : EventMessage → String
  | single part => part.event.kind
  | composite .. => "CompositeEvent"

end EventMessage

/-- What is sent with its number. -/
structure SequencedEvent where
  number : UInt64
  event : EventMessage
  deriving DecidableEq, Repr, Inhabited

end DeltaForest.Protocol
