import DeltaForest.Place

/-!
# Seats

A node owns other nodes in two ways: as children in its containments and as annotations. Where the
difference does not matter, a list of owned nodes is a seat of the node.
-/

namespace DeltaForest

/-- A list of nodes that a node owns. -/
inductive Seat
  | containment (c : Handle)
  | annotations
  deriving DecidableEq, Repr, Inhabited

namespace Node

/-- The nodes in a seat. -/
def seated (n : Node) : Seat → List NodeId
  | .containment c => n.children c
  | .annotations => n.annotations

/-- A node with other nodes in a seat. -/
def withSeated (n : Node) (s : Seat) (ids : List NodeId) : Node :=
  match s with
  | .containment c => n.withChildren c ids
  | .annotations => { n with annotations := ids }

end Node

/-- The place of a child, as a position in a seat. -/
def Place.seat (p : Place Handle) : Place Seat := ⟨p.owner, .containment p.feature, p.index⟩

/-- The place of an annotation, as a position in a seat. -/
def AnnotationPlace.seat (p : AnnotationPlace) : Place Seat := ⟨p.owner, .annotations, p.index⟩

end DeltaForest
