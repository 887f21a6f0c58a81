import DeltaForest.Place
import DeltaForest.Subtree
import DeltaForest.TypeRegistry

/-!
# The model

What is known at a moment: the registered types and the nodes there are. Planning an edit, reading
a message and writing one only look at the model; they do not change it.
-/

namespace DeltaForest

/-- Types and nodes. -/
structure Model where
  types : TypeRegistry
  nodes : NodeTable

namespace Model

/-- The node with an id. -/
def node (m : Model) (id : NodeId) : Except Fault Node := m.nodes.get id

/-- Refuses a feature that the classifier of a node does not declare. -/
def checkApplicable (m : Model) (n : Node) (feature : FeatureInfo) : Except Fault Unit :=
  if m.types.declares n.classifier feature.handle then .ok ()
  else .error (.notApplicable n.id feature.pointer)

/-- The place of a child: the first one at which its parent has it. -/
def locateChild (m : Model) (child : NodeId) : Except Fault (Place Handle) := do
  match (← m.node child).parent with
  | none => throw (.notContained child)
  | some parent =>
    match (← m.node parent).findChild? child with
    | some (feature, index) => return ⟨parent, feature, index⟩
    | none => throw (.notContained child)

/-- The place of an annotation. -/
def locateAnnotation (m : Model) (node : NodeId) : Except Fault AnnotationPlace := do
  match (← m.node node).parent with
  | none => throw (.notContained node)
  | some parent =>
    match (← m.node parent).annotationIndex? node with
    | some index => return ⟨parent, index⟩
    | none => throw (.notContained node)

end Model

end DeltaForest
