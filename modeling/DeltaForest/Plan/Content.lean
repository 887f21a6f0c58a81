import DeltaForest.Change
import DeltaForest.Plan.Check

/-!
# Planning: partitions, classifiers and properties
-/

namespace DeltaForest

namespace Model

variable (m : Model)

/-- Plans a new partition. Its root has to be of a classifier for partitions. -/
def planAddPartition (tree : Subtree) : Except Fault Change := do
  let info ← m.types.classifierAt tree.root.classifier
  unless info.isPartition do throw (.notAPartition tree.root.id)
  m.checkNew tree
  return .partitionAdded tree

/-- Plans the end of a partition, which is a node without one above it. -/
def planDeletePartition (id : NodeId) : Except Fault Change := do
  if (← m.node id).parent.isSome then throw (.notAPartition id)
  return .partitionDeleted (← m.leaving id)

/-- The features that a node has something for. -/
def setFeatures (n : Node) : List Handle :=
  n.properties.keys ++
  -- A list that is stored empty does not count.
  (n.containments.toList.filter (!·.2.isEmpty)).map (·.1) ++
  (n.references.toList.filter (!·.2.isEmpty)).map (·.1)

/-- Plans another classifier for a node. It has to declare every feature that the node has
    something for. -/
def planChangeClassifier (id : NodeId) (new : Handle) : Except Fault Change := do
  let _ ← m.types.classifierAt new
  let n ← m.node id
  match (setFeatures n).find? (!m.types.declares new ·) with
  | some feature => throw (.notApplicable id (← m.types.pointer feature))
  | none => return .classifierChanged id new n.classifier

/-- The present value of a property. -/
def currentValue (id : NodeId) (property : Handle) : Except Fault Value := do
  let (n, info) ← m.slot .property id property
  match n.property? property with
  | some v => return v
  | none => throw (.unset id info.pointer)

/-- Plans the first value of a property. -/
def planAddProperty (id : NodeId) (property : Handle) (v : Value) : Except Fault Change := do
  let (n, info) ← m.slot .property id property
  checkValue info v
  if (n.property? property).isSome then throw (.alreadySet id info.pointer)
  return .propertyAdded id property v

/-- Plans to take the value of a property away. -/
def planDeleteProperty (id : NodeId) (property : Handle) : Except Fault Change := do
  return .propertyDeleted id property (← m.currentValue id property)

/-- Plans another value for a property that has one. -/
def planChangeProperty (id : NodeId) (property : Handle) (v : Value) : Except Fault Change := do
  let (_, info) ← m.slot .property id property
  checkValue info v
  return .propertyChanged id property v (← m.currentValue id property)

/-- Plans the first or another value of a property. -/
def planSetProperty (id : NodeId) (property : Handle) (v : Value) : Except Fault Change := do
  let (n, _) ← m.slot .property id property
  if (n.property? property).isSome then m.planChangeProperty id property v
  else m.planAddProperty id property v

end Model

end DeltaForest
