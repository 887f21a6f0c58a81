import DeltaForest.Handle
import DeltaForest.Id
import DeltaForest.Language

/-!
# What can go wrong

The causes for which a message is refused or a change cannot be made, each with a stable code and
a text for people. A cause names what it is about; the wording stands in one place,
`Fault.message`.
-/

namespace DeltaForest

/-- What a pointer can be expected to name. -/
inductive ElementKind
  | classifier
  | property
  | containment
  | reference
  /-- A classifier of annotations. -/
  | annotation
  deriving DecidableEq, Repr, Inhabited

/-- The word for a kind of element. -/
def ElementKind.word : ElementKind → String
  | classifier => "classifier"
  | property => "property"
  | containment => "containment"
  | reference => "reference"
  | annotation => "annotation"

/-- What was expected in place of an invalid value. -/
inductive Expected
  /-- The text of a value of the type. -/
  | textOf (type : DataType)
  /-- A value of the type. -/
  | valueOf (type : DataType)
  /-- A feature that has values. -/
  | property
  deriving DecidableEq, Repr, Inhabited

/-- The wording of an expectation. -/
def Expected.text : Expected → String
  | textOf .boolean => "\"true\" or \"false\""
  | textOf .integer => "a decimal integer"
  | textOf .string => "a text"
  | textOf (.enumeration literals) => "one of " ++ Text.quotedList literals
  | valueOf type => type.description
  | property => "a property"

/-- A list of a node: the children or entries of a feature, or its annotations. -/
inductive NodeList
  | feature (p : Pointer)
  | annotations
  deriving DecidableEq, Repr, Inhabited

/-- How a list is named. -/
def NodeList.text : NodeList → String
  | feature p => p.text
  | annotations => "annotations"

/-- Why a collection of nodes is no tree. -/
inductive ChunkFlaw
  /-- There are no nodes. -/
  | empty
  /-- A node owns one that is not there. -/
  | missing (owner child : NodeId)
  /-- A node is owned at two places. -/
  | ownedTwice (child : NodeId)
  /-- Every node is owned by another one. -/
  | rootless
  /-- These nodes, if not more, are owned by no other one. -/
  | roots (first second : NodeId)
  /-- Some nodes own each other in a circle. -/
  | cycle
  deriving DecidableEq, Repr, Inhabited

/-- The wording of a flaw. -/
def ChunkFlaw.text : ChunkFlaw → String
  | empty => "chunk holds no nodes"
  | missing owner child =>
    "node " ++ owner.text ++ " owns " ++ child.text ++ ", which is not part of the subtree"
  | ownedTwice child => "node " ++ child.text ++ " is owned more than once"
  | rootless => "subtree has no root"
  | roots first second =>
    "subtree has more than one root: " ++ first.text ++ ", " ++ second.text
  | cycle => "subtree contains an ownership cycle"

/-- Why a move makes no sense. -/
inductive MoveFlaw
  /-- A message names another kind of move than the current state calls for. -/
  | otherKind (named called : String)
  /-- A node would replace one that contains it. -/
  | replacesOwner (moved replaced : NodeId)
  /-- An entry would replace itself. -/
  | replacesItself (index : Nat) (owner : NodeId)
  deriving DecidableEq, Repr, Inhabited

/-- The wording of a flaw. -/
def MoveFlaw.text : MoveFlaw → String
  | otherKind named called =>
    "message names " ++ named ++ " but the current state calls for " ++ called
  | replacesOwner moved replaced =>
    moved.text ++ " cannot replace " ++ replaced.text ++ ", which contains it"
  | replacesItself index owner =>
    "entry " ++ toString index ++ " of " ++ owner.text ++ " cannot replace itself"

/-- A cause of failure. -/
inductive Fault
  | unknownNode (id : NodeId)
  | unknownFeature (p : Pointer)
  | unknownClassifier (p : Pointer)
  /-- A pointer names something else than it should. -/
  | kindMismatch (p : Pointer) (expected : ElementKind)
  /-- The classifier of a node does not declare a feature. -/
  | notApplicable (node : NodeId) (feature : Pointer)
  | invalidValue (feature : Pointer) (value : String) (expected : Expected)
  | missingValue (what : String)
  | invalidChunk (flaw : ChunkFlaw)
  | outOfBounds (node : NodeId) (list : NodeList) (index length : Nat)
  /-- Another node stands where one is named. -/
  | unexpectedNode (expected found : NodeId)
  | notContained (id : NodeId)
  /-- A feature for one child or entry would get two. -/
  | overfull (node : NodeId) (feature : Pointer)
  /-- A node would become its own descendant. -/
  | containmentCycle (moved target : NodeId)
  | invalidMove (flaw : MoveFlaw)
  /-- A change records a state that is not the current one. -/
  | staleChange (kind : String)
  | duplicateNode (id : NodeId)
  | notAPartition (id : NodeId)
  | alreadySet (node : NodeId) (feature : Pointer)
  | unset (node : NodeId) (feature : Pointer)
  /-- A node that would be removed is the target of a reference from elsewhere. -/
  | stillReferenced (node referrer : NodeId)
  | duplicatePointer (p : Pointer)
  /-- A message is of a kind that is not handled here. -/
  | unmapped (kind : String)
  /-- Events between the expected one and the received one are missing. -/
  | sequenceGap (expected received : UInt64)
  /-- A handle was issued by another type registry. -/
  | foreignHandle (h : Handle)
  deriving DecidableEq, Repr, Inhabited

namespace Fault

/-- The stable code of a cause. -/
def code : Fault → String
  | unknownNode _ => "unknownNode"
  | unknownFeature _ => "unknownFeature"
  | unknownClassifier _ => "unknownClassifier"
  | kindMismatch .. => "featureKindMismatch"
  | notApplicable .. => "featureNotApplicable"
  | invalidValue .. => "invalidValue"
  | missingValue _ => "missingValue"
  | invalidChunk _ => "invalidChunk"
  | outOfBounds .. => "indexOutOfBounds"
  | unexpectedNode .. => "unexpectedNode"
  | notContained _ => "notContained"
  | overfull .. => "multiplicityViolation"
  | containmentCycle .. => "containmentCycle"
  | invalidMove _ => "invalidMove"
  | staleChange _ => "staleChange"
  | duplicateNode _ => "duplicateNode"
  | notAPartition _ => "notAPartition"
  | alreadySet .. => "featureAlreadySet"
  | unset .. => "unsetFeature"
  | stillReferenced .. => "stillReferenced"
  | duplicatePointer _ => "duplicateMetaPointer"
  | unmapped _ => "unmapped"
  | sequenceGap .. => "sequenceGap"
  | foreignHandle _ => "foreignHandle"

/-- The wording of a cause. -/
def message : Fault → String
  | unknownNode id => "unknown node: " ++ id.text
  | unknownFeature p => "unknown feature: " ++ p.text
  | unknownClassifier p => "unknown classifier: " ++ p.text
  | kindMismatch p expected => p.text ++ " is not a " ++ expected.word
  | notApplicable node feature =>
    "feature " ++ feature.text ++ " does not apply to node " ++ node.text
  | invalidValue feature value expected =>
    "invalid value " ++ Text.quoted value ++ " for " ++ feature.text ++ ": expected " ++
      expected.text
  | missingValue what => "missing value: " ++ what
  | invalidChunk flaw => "invalid chunk: " ++ flaw.text
  | outOfBounds node list index length =>
    "index " ++ toString index ++ " out of bounds for " ++ list.text ++ " of " ++ node.text ++
      " (len " ++ toString length ++ ")"
  | unexpectedNode expected found =>
    "expected node " ++ expected.text ++ " but found Some(NodeId(" ++ Text.quoted found.text ++
      "))"
  | notContained id => "node " ++ id.text ++ " is not contained by any parent"
  | overfull node feature => feature.text ++ " of " ++ node.text ++ " holds at most one value"
  | containmentCycle moved target =>
    "cannot move " ++ moved.text ++ " below its own descendant " ++ target.text
  | invalidMove flaw => "invalid move: " ++ flaw.text
  | staleChange kind => kind ++ " does not match the current state"
  | duplicateNode id => "duplicate node: " ++ id.text
  | notAPartition id => "not a partition: " ++ id.text
  | alreadySet node feature => feature.text ++ " of " ++ node.text ++ " is already set"
  | unset node feature => feature.text ++ " of " ++ node.text ++ " is unset"
  | stillReferenced node referrer =>
    "node " ++ node.text ++ " is still referenced by " ++ referrer.text
  | duplicatePointer p => "duplicate meta pointer: " ++ p.text
  | unmapped kind => "unmapped message kind: " ++ kind
  | sequenceGap expected received =>
    "sequence gap: expected " ++ toString expected ++ ", received " ++ toString received
  | foreignHandle h => "handle " ++ h.text ++ " was issued by another type registry"

/-- Whether a cause may disappear once further messages have arrived. -/
def isUnresolvedReference : Fault → Bool
  | unknownNode _ => true
  | _ => false

end Fault

end DeltaForest
