import DeltaForest.Node

/-!
# Places and moves

Children and entries stand at places: the node that owns the list, the feature whose list it is,
and the position in the list. Annotations stand in the one list of annotations that a node has.

A move is described by both places. How it is written down depends on how far it goes, so that
nothing is said twice: from another node (`elsewhere`), from another feature of the same node
(`sameOwner`), or within one list (`sameList`).

The feature of a place is a handle inside a forest and a pointer in messages.
-/

namespace DeltaForest

/-- A position in a feature of a node. -/
structure Place (φ : Type) where
  owner : NodeId
  feature : φ
  index : Nat
  deriving DecidableEq, Repr, Inhabited

/-- A place with its feature named in another way, if that succeeds. -/
def Place.rename {φ ψ : Type} (f : φ → Except Fault ψ) (p : Place φ) :
    Except Fault (Place ψ) := do
  return ⟨p.owner, ← f p.feature, p.index⟩

/-- A position among the annotations of a node. -/
structure AnnotationPlace where
  owner : NodeId
  index : Nat
  deriving DecidableEq, Repr, Inhabited

/-- A move from one place to another. -/
inductive Shift (φ : Type)
  | elsewhere (target source : Place φ)
  | sameOwner (owner : NodeId) (newFeature : φ) (newIndex : Nat) (oldFeature : φ) (oldIndex : Nat)
  | sameList (owner : NodeId) (feature : φ) (newIndex oldIndex : Nat)
  deriving DecidableEq, Repr, Inhabited

namespace Shift

variable {φ : Type}

/-- Where a move ends. -/
def target : Shift φ → Place φ
  | elsewhere target _ => target
  | sameOwner owner feature index _ _ => ⟨owner, feature, index⟩
  | sameList owner feature index _ => ⟨owner, feature, index⟩

/-- Where a move starts. -/
def source : Shift φ → Place φ
  | elsewhere _ source => source
  | sameOwner owner _ _ feature index => ⟨owner, feature, index⟩
  | sameList owner feature _ index => ⟨owner, feature, index⟩

/-- The move between two places. -/
def between [DecidableEq φ] (target source : Place φ) : Shift φ :=
  if source.owner = target.owner then
    if source.feature = target.feature then
      sameList target.owner target.feature target.index source.index
    else sameOwner target.owner target.feature target.index source.feature source.index
  else elsewhere target source

@[simp] theorem target_between [DecidableEq φ] (target source : Place φ) :
    (between target source).target = target := by
  unfold between
  split
  · split <;> rfl
  · rfl

@[simp] theorem source_between [DecidableEq φ] (target source : Place φ) :
    (between target source).source = source := by
  cases target
  cases source
  unfold between
  split
  · split <;> simp_all [Shift.source]
  · rfl

/-- A move with its features named in another way, if that succeeds. -/
def rename {ψ : Type} (f : φ → Except Fault ψ) : Shift φ → Except Fault (Shift ψ)
  | elsewhere target source => return elsewhere (← target.rename f) (← source.rename f)
  | sameOwner owner newFeature newIndex oldFeature oldIndex =>
    return sameOwner owner (← f newFeature) newIndex (← f oldFeature) oldIndex
  | sameList owner feature newIndex oldIndex =>
    return sameList owner (← f feature) newIndex oldIndex

/-- How far a move goes, in the name of its kind. The lists are named `list`. -/
def reach (list : String) : Shift φ → String
  | elsewhere .. => "FromOther" ++ list
  | sameOwner .. => "FromOther" ++ list ++ "InSameParent"
  | sameList .. => "InSame" ++ list

end Shift

/-- A move from one place among annotations to another. -/
inductive AnnotationShift
  | elsewhere (target source : AnnotationPlace)
  | sameOwner (owner : NodeId) (newIndex oldIndex : Nat)
  deriving DecidableEq, Repr, Inhabited

namespace AnnotationShift

/-- Where a move ends. -/
def target : AnnotationShift → AnnotationPlace
  | elsewhere target _ => target
  | sameOwner owner index _ => ⟨owner, index⟩

/-- Where a move starts. -/
def source : AnnotationShift → AnnotationPlace
  | elsewhere _ source => source
  | sameOwner owner _ index => ⟨owner, index⟩

/-- The move between two places. -/
def between (target source : AnnotationPlace) : AnnotationShift :=
  if source.owner = target.owner then sameOwner target.owner target.index source.index
  else elsewhere target source

@[simp] theorem target_between (target source : AnnotationPlace) :
    (between target source).target = target := by
  unfold between
  split <;> rfl

@[simp] theorem source_between (target source : AnnotationPlace) :
    (between target source).source = source := by
  cases target
  cases source
  unfold between
  split <;> simp_all [AnnotationShift.source]

/-- How far a move goes, in the name of its kind. -/
def reach : AnnotationShift → String
  | elsewhere .. => "FromOtherParent"
  | sameOwner .. => "InSameParent"

end AnnotationShift

end DeltaForest
