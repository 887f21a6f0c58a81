import DeltaForest.Edit
import DeltaForest.Plan.Annotations
import DeltaForest.Plan.Children
import DeltaForest.Plan.Content
import DeltaForest.Plan.Entries

/-!
# Planning edits

`Model.plan` turns an edit into the change that it amounts to in the current state, or says why it
cannot be made. Planning again what a change stands for tells whether the change still fits: it
does exactly if the outcome is the change itself.
-/

namespace DeltaForest

namespace Model

variable (m : Model)

/-- The change that an edit amounts to. -/
def plan : Edit → Except Fault Change
  | .addPartition tree => m.planAddPartition tree
  | .deletePartition node => m.planDeletePartition node
  | .changeClassifier node new => m.planChangeClassifier node new
  | .addProperty node property value => m.planAddProperty node property value
  | .deleteProperty node property => m.planDeleteProperty node property
  | .changeProperty node property value => m.planChangeProperty node property value
  | .setProperty node property value => m.planSetProperty node property value
  | .addChild place new => m.planAddChild place new
  | .deleteChild place old => m.planDeleteChild place old
  | .replaceChild place old new => m.planReplaceChild place old new
  | .moveChild target moved => m.planMoveChild target moved
  | .moveAndReplaceChild target moved old => m.planMoveAndReplaceChild target moved old
  | Edit.addAnnotation place new => m.planAddAnnotation place new
  | Edit.deleteAnnotation place old => m.planDeleteAnnotation place old
  | Edit.replaceAnnotation place old new => m.planReplaceAnnotation place old new
  | Edit.moveAnnotation target moved => m.planMoveAnnotation target moved
  | Edit.moveAndReplaceAnnotation target moved old =>
    m.planMoveAndReplaceAnnotation target moved old
  | .addEntry place new => m.planAddEntry place new
  | .deleteEntry place => m.planDeleteEntry place
  | .changeEntry place new => m.planChangeEntry place new
  | .moveEntry target source => m.planMoveEntry target source
  | .moveAndReplaceEntry target source => m.planMoveAndReplaceEntry target source
  | .addResolveInfo place info => m.planAddResolveInfo place info
  | .deleteResolveInfo place => m.planDeleteResolveInfo place
  | .changeResolveInfo place info => m.planChangeResolveInfo place info
  | .addTarget place new => m.planAddTarget place new
  | .deleteTarget place => m.planDeleteTarget place
  | .changeTarget place new => m.planChangeTarget place new
  | .setTarget place new => m.planSetTarget place new

/-- The change that a change would be in the current state. -/
def replan (c : Change) : Except Fault Change := m.plan c.edit

end Model

end DeltaForest
