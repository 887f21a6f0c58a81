import DeltaForest.Node
import DeltaForest.Pointer

/-!
# Chunks

A chunk is a subtree as it travels: a flat list of its nodes in any order, with pointers in place of
handles and texts in place of values. Which node owns which is told by the lists of ids.
-/

namespace DeltaForest

namespace Chunk

/-- A property of a travelling node. Without a value the property is unset. -/
structure Property where
  pointer : Pointer
  value : Option String
  deriving DecidableEq, Repr, Inhabited

/-- The children in a containment of a travelling node. -/
structure Containment where
  pointer : Pointer
  children : List NodeId
  deriving DecidableEq, Repr, Inhabited

/-- The entries in a reference of a travelling node. -/
structure Reference where
  pointer : Pointer
  entries : List Entry
  deriving DecidableEq, Repr, Inhabited

/-- A travelling node. -/
structure Item where
  id : NodeId
  classifier : Pointer
  properties : List Property
  containments : List Containment
  references : List Reference
  annotations : List NodeId
  parent : Option NodeId
  deriving DecidableEq, Repr, Inhabited

end Chunk

/-- A subtree as it travels. -/
structure Chunk where
  items : List Chunk.Item
  deriving DecidableEq, Repr, Inhabited

/-! ## In messages -/

/-- An entry as it stands in a chunk. -/
instance : Wire Entry where
  toData e := .object
    [("resolveInfo", toData e.resolveInfo), ("reference", toData e.target)]
  ofData src d := d.record? src do
    let resolveInfo ← .optional "resolveInfo"
    let target ← .optional "reference"
    return ⟨target, resolveInfo⟩

namespace Chunk

instance : Wire Property where
  toData p := .object [("property", toData p.pointer), ("value", toData p.value)]
  ofData src d := d.record? src do
    let pointer ← .required "property"
    let value ← .optional "value"
    return ⟨pointer, value⟩

instance : Wire Containment where
  toData c := .object [("containment", toData c.pointer), ("children", toData c.children)]
  ofData src d := d.record? src do
    let pointer ← .required "containment"
    let children ← .required "children"
    return ⟨pointer, children⟩

instance : Wire Reference where
  toData r := .object [("reference", toData r.pointer), ("targets", toData r.entries)]
  ofData src d := d.record? src do
    let pointer ← .required "reference"
    let entries ← .required "targets"
    return ⟨pointer, entries⟩

instance : Wire Item where
  toData n := .object
    [("id", toData n.id), ("classifier", toData n.classifier),
      ("properties", toData n.properties), ("containments", toData n.containments),
      ("references", toData n.references), ("annotations", toData n.annotations),
      ("parent", toData n.parent)]
  ofData src d := d.record? src do
    let id ← .required "id"
    let classifier ← .required "classifier"
    let properties ← .defaulted "properties" []
    let containments ← .defaulted "containments" []
    let references ← .defaulted "references" []
    let annotations ← .defaulted "annotations" []
    let parent ← .defaulted "parent" none
    return ⟨id, classifier, properties, containments, references, annotations, parent⟩

end Chunk

instance : Wire Chunk where
  toData c := .object [("nodes", toData c.items)]
  ofData src d := d.record? src do
    return ⟨← .required "nodes"⟩

end DeltaForest
