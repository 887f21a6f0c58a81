import DeltaForest.Change
import DeltaForest.Plan.Check

/-!
# Planning: children

A child that is moved within one list takes the position named, counted in the list without it;
moved into another list it may also go behind the end. A child that takes the place of another one
may come from anywhere, but not from below the one it replaces.
-/

namespace DeltaForest

namespace Model

variable (m : Model)

/-- Plans a new child. -/
def planAddChild (place : Place Handle) (new : Subtree) : Except Fault Change := do
  let (n, info) ← m.slot .containment place.owner place.feature
  let children := n.children place.feature
  checkInsert children place.owner (.feature info.pointer) place.index
  checkRoom n info children.length
  m.checkNew new
  return .childAdded place new

/-- The child at a place, which has to be the one named. -/
def childAt (place : Place Handle) (named : NodeId) : Except Fault Unit := do
  let (n, info) ← m.slot .containment place.owner place.feature
  let found ←
    elementAt (n.children place.feature) place.owner (.feature info.pointer) place.index
  checkExpected named found

/-- Plans the end of a child. -/
def planDeleteChild (place : Place Handle) (old : NodeId) : Except Fault Change := do
  m.childAt place old
  return .childDeleted place (← m.leaving old)

/-- Plans a new child in the place of another one. -/
def planReplaceChild (place : Place Handle) (old : NodeId) (new : Subtree) :
    Except Fault Change := do
  m.childAt place old
  -- The old child is still there, so references to it pass the check.
  m.checkNew new
  return .childReplaced place new (← m.leaving old)

/-- Plans another place for a child. -/
def planMoveChild (target : Place Handle) (moved : NodeId) : Except Fault Change := do
  let (n, info) ← m.slot .containment target.owner target.feature
  let source ← m.locateChild moved
  m.checkNotBelow moved target.owner
  let children := n.children target.feature
  -- In its own list the child cannot land behind the end, and it needs no more room.
  if source.owner = target.owner && source.feature = target.feature then
    let _ ← elementAt children target.owner (.feature info.pointer) target.index
  else
    checkInsert children target.owner (.feature info.pointer) target.index
    checkRoom n info children.length
  return .childMoved (.between target source) moved

/-- Plans to move a child to the place of another one, which is deleted. -/
def planMoveAndReplaceChild (target : Place Handle) (moved old : NodeId) :
    Except Fault Change := do
  m.childAt target old
  let source ← m.locateChild moved
  m.checkNotBelow moved target.owner
  m.checkNotReplacingOwner moved old
  return .childMovedAndReplaced (.between target source) moved (← m.leaving old)

end Model

end DeltaForest
