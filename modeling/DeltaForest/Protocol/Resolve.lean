import DeltaForest.Chunk.Codec
import DeltaForest.Plan

/-!
# Understanding messages

Messages speak of pointers, texts and chunks; a model knows handles, values and subtrees. What a
message names is looked up among the registered types, and chunks are read against the nodes that
are there.
-/

namespace DeltaForest

namespace Model

variable (m : Model)

/-- The handle of the classifier with a pointer. -/
def resolveClassifier (p : Pointer) : Except Fault Handle :=
  return (← m.types.classifier p).handle

/-- The handle of the feature of a kind with a pointer. -/
def resolveFeature (kind : ElementKind) (p : Pointer) : Except Fault Handle :=
  return (← m.types.feature kind p).handle

/-- The handle of a property and the value that a text is for it. -/
def resolveValue (p : Pointer) (s : String) : Except Fault (Handle × Value) := do
  let info ← m.types.feature .property p
  match info.dataType? with
  | some type => return (info.handle, ← Value.read p type s)
  | none => throw (.kindMismatch p .property)

/-- The subtree that has travelled as a chunk. -/
def resolveChunk (c : Chunk) : Except Fault Subtree := c.toSubtree m.types m.nodes

end Model

/-- An entry that says something. -/
def Entry.checked (e : Entry) : Except Fault Entry := do
  e.check
  return e

/-- Refuses a change of another kind than the one that a message names. -/
def Change.checkKind (c : Change) (named : String) : Except Fault Change :=
  if c.kind = named then .ok c else .error (.invalidMove (.otherKind named c.kind))

end DeltaForest
