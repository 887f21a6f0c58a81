import DeltaForest.Value

/-!
# Nodes

A node has an id, a classifier, values for properties, children in containments, entries in
references, and annotations. Children, annotations and the node above are known by their ids; the
nodes themselves stand side by side in a table. Features are kept in the order of their handles.

A containment or reference without children or entries may be stored as an empty list or not at
all. Looked at through `children` and `entries` the two are the same; every edit of a node leaves
only lists that hold something.
-/

namespace DeltaForest

/-- An entry of a reference: the node that is meant, a text to find it by, or both. -/
structure Entry where
  target : Option NodeId
  resolveInfo : Option String
  deriving DecidableEq, Repr, Inhabited

/-- Whether an entry says nothing. -/
def Entry.isEmpty (e : Entry) : Bool :=
  e.target.isNone && e.resolveInfo.isNone

/-- Something for some of the features, in the order of handles. -/
abbrev FeatureMap (α : Type) : Type := Std.ExtTreeMap Handle α compare

/-- A node. -/
structure Node where
  id : NodeId
  classifier : Handle
  /-- The node above, if there is one. -/
  parent : Option NodeId
  properties : FeatureMap Value
  containments : FeatureMap (List NodeId)
  references : FeatureMap (List Entry)
  annotations : List NodeId
  deriving DecidableEq

namespace Node

/-- A node without anything on it. -/
def bare (id : NodeId) (classifier : Handle) : Node where
  id := id
  classifier := classifier
  parent := none
  properties := ∅
  containments := ∅
  references := ∅
  annotations := []

instance : Inhabited Node := ⟨bare default default⟩

/-! ## Looking at a node -/

/-- The value of a property. -/
def property? (n : Node) (p : Handle) : Option Value := n.properties[p]?

/-- The children in a containment. -/
def children (n : Node) (c : Handle) : List NodeId := n.containments[c]?.getD []

/-- The entries of a reference. -/
def entries (n : Node) (r : Handle) : List Entry := n.references[r]?.getD []

/-- All nodes that a node owns: its children, containment by containment, then its annotations. -/
def owned (n : Node) : List NodeId :=
  n.containments.toList.flatMap (·.2) ++ n.annotations

/-- The position of a child in a containment. -/
def childIndex? (n : Node) (c : Handle) (child : NodeId) : Option Nat :=
  (n.children c).idxOf? child

/-- The first containment that holds a child, and the position of the child there. -/
def findChild? (n : Node) (child : NodeId) : Option (Handle × Nat) :=
  n.containments.toList.findSome? fun (c, children) =>
    (children.idxOf? child).map fun i => (c, i)

/-- The position of an annotation. -/
def annotationIndex? (n : Node) (a : NodeId) : Option Nat :=
  n.annotations.idxOf? a

/-- All targets of references. -/
def targets (n : Node) : List NodeId :=
  (n.references.toList.flatMap (·.2)).filterMap (·.target)

/-! ## Editing a node -/

/-- A node with other children in a containment. -/
def withChildren (n : Node) (c : Handle) (children : List NodeId) : Node :=
  { n with containments := n.containments.insert c children }

/-- A node with other entries in a reference. -/
def withEntries (n : Node) (r : Handle) (entries : List Entry) : Node :=
  { n with references := n.references.insert r entries }

/-- A node without the lists that hold nothing. -/
def prune (n : Node) : Node :=
  { n with
    containments := n.containments.filter fun _ children => !children.isEmpty
    references := n.references.filter fun _ entries => !entries.isEmpty }

end Node

end DeltaForest
