import DeltaForest.Chunk
import DeltaForest.Model

/-!
# Between subtrees and chunks

Writing a subtree as a chunk keeps the order of its nodes and features. Reading a chunk resolves
pointers and texts with the registered types and finds the tree in the list of nodes. References of
a chunk may point at its own nodes, also at later ones, and at nodes that are known already.

The links to parents in a chunk are not read, ownership alone counts. Properties without a value
and empty lists are dropped. If a feature stands twice, the last one with something in it counts.
-/

namespace DeltaForest

namespace Chunk

/-! ## Writing -/

/-- A node as it travels. -/
def Item.ofNode (types : TypeRegistry) (n : Node) : Except Fault Item := do
  let classifier ← types.pointer n.classifier
  let properties ← n.properties.toList.mapM fun (p, v) =>
    return ⟨← types.pointer p, some v.text⟩
  let containments ← n.containments.toList.mapM fun (c, children) =>
    return ⟨← types.pointer c, children⟩
  let references ← n.references.toList.mapM fun (r, entries) =>
    return ⟨← types.pointer r, entries⟩
  return ⟨n.id, classifier, properties, containments, references, n.annotations, n.parent⟩

/-- A subtree as it travels. -/
def ofSubtree (types : TypeRegistry) (s : Subtree) : Except Fault Chunk := do
  return ⟨← s.nodes.mapM (Item.ofNode types)⟩

end Chunk

/-- A node with everything below it, as it travels. -/
def Model.chunk (m : Model) (id : NodeId) : Except Fault Chunk := do
  Chunk.ofSubtree m.types (← m.nodes.collect id)

namespace Chunk

/-! ## Reading -/

/-- A feature that a pointer names and that the classifier of a node declares. -/
def applicable (types : TypeRegistry) (kind : ElementKind) (n : Node) (p : Pointer) :
    Except Fault FeatureInfo := do
  let info ← types.feature kind p
  if types.declares n.classifier info.handle then return info
  throw (.notApplicable n.id info.pointer)

/-- A node with the value of a property, if there is one. -/
def addProperty (types : TypeRegistry) (n : Node) (p : Property) :
    Except Fault Node := do
  let info ← applicable types .property n p.pointer
  match p.value, info.dataType? with
  | some s, some type =>
    let v ← Value.read info.pointer type s
    return { n with properties := n.properties.insert info.handle v }
  -- A property without a text leaves the node as it is.
  | _, _ => return n

/-- A node with the children in a containment. -/
def addContainment (types : TypeRegistry) (n : Node) (c : Containment) :
    Except Fault Node := do
  let info ← applicable types .containment n c.pointer
  return if c.children.isEmpty then n else n.withChildren info.handle c.children

/-- A node with the entries in a reference. -/
def addReference (types : TypeRegistry) (n : Node) (r : Reference) :
    Except Fault Node := do
  let info ← applicable types .reference n r.pointer
  if r.entries.any Entry.isEmpty then throw (.missingValue "reference target or resolve info")
  return if r.entries.isEmpty then n else n.withEntries info.handle r.entries

/-- The node that has travelled, without a parent. -/
def Item.toNode (types : TypeRegistry) (n : Item) : Except Fault Node := do
  let classifier ← types.classifier n.classifier
  let node := Node.bare n.id classifier.handle
  let node ← n.properties.foldlM (addProperty types) node
  let node ← n.containments.foldlM (addContainment types) node
  let node ← n.references.foldlM (addReference types) node
  return { node with annotations := n.annotations }

/-- The subtree that has travelled, to be placed among the `known` nodes. -/
def toSubtree (c : Chunk) (types : TypeRegistry) (known : NodeTable) : Except Fault Subtree := do
  if c.items.isEmpty then throw (.invalidChunk .empty)
  let nodes ← c.items.mapM (Item.toNode types)
  match nodes.find? fun n => known.contains n.id with
  | some n => throw (.duplicateNode n.id)
  | none =>
    let ids := nodes.map Node.id
    match (nodes.flatMap Node.targets).find? fun t => t ∉ ids && !known.contains t with
    | some target => throw (.unknownNode target)
    | none => Subtree.ofList nodes

end Chunk

end DeltaForest
