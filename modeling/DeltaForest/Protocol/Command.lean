import DeltaForest.Chunk
import DeltaForest.Place
import DeltaForest.Protocol.Note

/-!
# Commands

A command is the request to change a forest. It carries the intention only: no old values, and no
old places except where an entry can be told in no other way. A command that deletes or replaces
names the node that goes, so that the receiver can check it. A moved child or annotation says
where it is to go, as far as that differs from where it is.

Commands are sent singly or bundled: the parts of a bundle are made one after the other, and all
or none.
-/

namespace DeltaForest.Protocol

/-- Where a child is to go. -/
inductive Destination
  | elsewhere (place : Place Pointer)
  | sameOwner (feature : Pointer) (index : Nat)
  | sameList (index : Nat)
  deriving DecidableEq, Repr, Inhabited

/-- Where an annotation is to go. -/
inductive AnnotationDestination
  | elsewhere (place : AnnotationPlace)
  | sameOwner (index : Nat)
  deriving DecidableEq, Repr, Inhabited

/-- How far a move goes, in the name of its kind. -/
def Destination.reach : Destination → String
  | elsewhere _ => "FromOtherContainment"
  | sameOwner .. => "FromOtherContainmentInSameParent"
  | sameList _ => "InSameContainment"

/-- How far a move goes, in the name of its kind. -/
def AnnotationDestination.reach : AnnotationDestination → String
  | elsewhere _ => "FromOtherParent"
  | sameOwner _ => "InSameParent"

/-- A request to change a forest. -/
inductive Command
  | addPartition (new : Chunk)
  | deletePartition (old : NodeId)
  | changeClassifier (node : NodeId) (new : Pointer)
  | addProperty (node : NodeId) (property : Pointer) (value : String)
  | deleteProperty (node : NodeId) (property : Pointer)
  | changeProperty (node : NodeId) (property : Pointer) (value : String)
  | addChild (place : Place Pointer) (new : Chunk)
  | deleteChild (place : Place Pointer) (old : NodeId)
  | replaceChild (place : Place Pointer) (old : NodeId) (new : Chunk)
  | moveChild (target : Destination) (moved : NodeId)
  | moveAndReplaceChild (target : Destination) (moved old : NodeId)
  | addAnnotation (place : AnnotationPlace) (new : Chunk)
  | deleteAnnotation (place : AnnotationPlace) (old : NodeId)
  | replaceAnnotation (place : AnnotationPlace) (old : NodeId) (new : Chunk)
  | moveAnnotation (target : AnnotationDestination) (moved : NodeId)
  | moveAndReplaceAnnotation (target : AnnotationDestination) (moved old : NodeId)
  | addEntry (place : Place Pointer) (new : Entry)
  | deleteEntry (place : Place Pointer)
  | changeEntry (place : Place Pointer) (new : Entry)
  | moveEntry (shift : Shift Pointer)
  | moveAndReplaceEntry (shift : Shift Pointer)
  | addResolveInfo (place : Place Pointer) (info : String)
  | deleteResolveInfo (place : Place Pointer)
  | changeResolveInfo (place : Place Pointer) (info : String)
  | addTarget (place : Place Pointer) (new : NodeId)
  | deleteTarget (place : Place Pointer)
  | changeTarget (place : Place Pointer) (new : NodeId)
  deriving DecidableEq, Repr, Inhabited

/-- The name of the kind of a command. -/
def Command.kind : Command → String
  | addPartition _ => "AddPartition"
  | deletePartition _ => "DeletePartition"
  | changeClassifier .. => "ChangeClassifier"
  | addProperty .. => "AddProperty"
  | deleteProperty .. => "DeleteProperty"
  | changeProperty .. => "ChangeProperty"
  | addChild .. => "AddChild"
  | deleteChild .. => "DeleteChild"
  | replaceChild .. => "ReplaceChild"
  | moveChild target _ => "MoveChild" ++ target.reach
  | moveAndReplaceChild target .. => "MoveAndReplaceChild" ++ target.reach
  | addAnnotation .. => "AddAnnotation"
  | deleteAnnotation .. => "DeleteAnnotation"
  | replaceAnnotation .. => "ReplaceAnnotation"
  | moveAnnotation target _ => "MoveAnnotation" ++ target.reach
  | moveAndReplaceAnnotation target .. => "MoveAndReplaceAnnotation" ++ target.reach
  | addEntry .. => "AddReference"
  | deleteEntry _ => "DeleteReference"
  | changeEntry .. => "ChangeReference"
  | moveEntry shift => "MoveEntry" ++ shift.reach "Reference"
  | moveAndReplaceEntry shift => "MoveAndReplaceEntry" ++ shift.reach "Reference"
  | addResolveInfo .. => "AddReferenceResolveInfo"
  | deleteResolveInfo _ => "DeleteReferenceResolveInfo"
  | changeResolveInfo .. => "ChangeReferenceResolveInfo"
  | addTarget .. => "AddReferenceTarget"
  | deleteTarget _ => "DeleteReferenceTarget"
  | changeTarget .. => "ChangeReferenceTarget"

/-- A command with its id. -/
structure CommandPart where
  id : CommandId
  command : Command
  note : Option Note
  deriving DecidableEq, Repr, Inhabited

/-- What is sent: a single command or a bundle. -/
inductive CommandMessage
  | single (part : CommandPart)
  | composite (parts : List CommandPart) (note : Option Note)
  deriving DecidableEq, Repr, Inhabited

namespace CommandMessage

/-- The commands in a message. -/
def parts : CommandMessage → List CommandPart
  | single part => [part]
  | composite parts _ => parts

/-- The name of the kind of a message. -/
def kind : CommandMessage → String
  | single part => part.command.kind
  | composite .. => "CompositeCommand"

end CommandMessage

end DeltaForest.Protocol
