import DeltaForest.Change
import DeltaForest.Plan.Check

/-!
# Planning: entries of references

Entries have no ids; they are known by their places. The two halves of an entry, its target and
its resolve info, can be edited on their own, but not so that nothing is left.
-/

namespace DeltaForest

namespace Model

variable (m : Model)

/-- Plans a new entry. -/
def planAddEntry (place : Place Handle) (new : Entry) : Except Fault Change := do
  let (n, info) ← m.slot .reference place.owner place.feature
  let entries := n.entries place.feature
  checkInsert entries place.owner (.feature info.pointer) place.index
  checkRoom n info entries.length
  m.checkEntry new
  return .entryAdded place new

/-- Plans the end of an entry. -/
def planDeleteEntry (place : Place Handle) : Except Fault Change := do
  return .entryDeleted place (← m.entryAt place)

/-- Plans a new entry in the place of another one. -/
def planChangeEntry (place : Place Handle) (new : Entry) : Except Fault Change := do
  let old ← m.entryAt place
  m.checkEntry new
  return .entryChanged place new old

/-- Plans another place for an entry. -/
def planMoveEntry (target source : Place Handle) : Except Fault Change := do
  let moved ← m.entryAt source
  let (n, info) ← m.slot .reference target.owner target.feature
  let entries := n.entries target.feature
  -- In its own list the entry cannot land behind the end, and it needs no more room.
  if source.owner = target.owner && source.feature = target.feature then
    let _ ← elementAt entries target.owner (.feature info.pointer) target.index
  else
    checkInsert entries target.owner (.feature info.pointer) target.index
    checkRoom n info entries.length
  return .entryMoved (.between target source) moved

/-- Plans to move an entry to the place of another one, which is deleted. -/
def planMoveAndReplaceEntry (target source : Place Handle) : Except Fault Change := do
  let moved ← m.entryAt source
  let old ← m.entryAt target
  if source = target then throw (.invalidMove (.replacesItself source.index source.owner))
  return .entryMovedAndReplaced (.between target source) moved old

/-- Plans resolve info for an entry without it. -/
def planAddResolveInfo (place : Place Handle) (info : String) : Except Fault Change := do
  let e ← m.entryAt place
  if e.resolveInfo.isSome then m.alreadySet place
  return .resolveInfoAdded place info e.target

/-- Plans to take the resolve info of an entry away. A target has to be left. -/
def planDeleteResolveInfo (place : Place Handle) : Except Fault Change := do
  let e ← m.entryAt place
  match e.resolveInfo with
  | none => m.unset place
  | some old =>
    if e.target.isNone then throw (.missingValue "reference target")
    return .resolveInfoDeleted place e.target old

/-- Plans other resolve info for an entry. -/
def planChangeResolveInfo (place : Place Handle) (info : String) : Except Fault Change := do
  let e ← m.entryAt place
  match e.resolveInfo with
  | none => m.unset place
  | some old => return .resolveInfoChanged place info e.target old

/-- Plans a target for an entry without one. -/
def planAddTarget (place : Place Handle) (new : NodeId) : Except Fault Change := do
  let e ← m.entryAt place
  if e.target.isSome then m.alreadySet place
  let _ ← m.node new
  return .targetAdded place new e.resolveInfo

/-- Plans to take the target of an entry away. Resolve info has to be left. -/
def planDeleteTarget (place : Place Handle) : Except Fault Change := do
  let e ← m.entryAt place
  match e.target with
  | none => m.unset place
  | some old =>
    if e.resolveInfo.isNone then throw (.missingValue "reference resolve info")
    return .targetDeleted place e.resolveInfo old

/-- Plans another target for an entry. -/
def planChangeTarget (place : Place Handle) (new : NodeId) : Except Fault Change := do
  let e ← m.entryAt place
  match e.target with
  | none => m.unset place
  | some old =>
    let _ ← m.node new
    return .targetChanged place new e.resolveInfo old

/-- Plans the first or another target of an entry. -/
def planSetTarget (place : Place Handle) (new : NodeId) : Except Fault Change := do
  let e ← m.entryAt place
  if e.target.isSome then m.planChangeTarget place new else m.planAddTarget place new

end Model

end DeltaForest
