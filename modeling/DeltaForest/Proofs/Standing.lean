import DeltaForest.Proofs.Subjects
import DeltaForest.Proofs.WellFormed

/-!
# Changes and the edits that they stand for

An edit that leaves it to the state whether something is added or changed is decided by the state
(`Model.decided`). The change that an edit is planned as stands for the decided edit
(`edit_of_plan`), so planning what it stands for comes to the same change again (`replan_of_plan`):
what has just been planned is never stale.
-/

namespace DeltaForest

/-- The subtrees that an edit brings. -/
def Edit.incoming : Edit → List Subtree
  | addPartition tree => [tree]
  | addChild _ new | replaceChild _ _ new => [new]
  | Edit.addAnnotation _ new | Edit.replaceAnnotation _ _ new => [new]
  | _ => []

/-- A change brings what the edit brings that it stands for. -/
theorem Change.incoming_edit (c : Change) : c.edit.incoming = c.incoming := by
  cases c <;> rfl

namespace Model

variable (m : Model)

/-- An edit with the choice made between adding and changing. -/
def decided : Edit → Edit
  | .setProperty id property v =>
    if (m.nodes[id]?.bind (·.property? property)).isSome then .changeProperty id property v
    else .addProperty id property v
  | .setTarget place new =>
    if ((m.nodes.entriesAt place)[place.index]?.bind (·.target)).isSome then
      .changeTarget place new
    else .addTarget place new
  | e => e

/-- Planning makes the choice in the same way. -/
theorem plan_decided (e : Edit) : m.plan (m.decided e) = m.plan e := by
  cases e
  case setProperty id property v =>
    rw [plan, planSetProperty, decided]
    cases hslot : m.slot .property id property with
    | error fault => split <;> simp [plan, planChangeProperty, planAddProperty, hslot]
    | ok found =>
      obtain ⟨n, info⟩ := found
      rw [(slot_eq_ok.1 hslot).2.1, Option.bind_some, ok_bind]
      exact apply_ite m.plan _ _ _
  case setTarget place new =>
    rw [plan, planSetTarget, decided]
    cases he : m.entryAt place with
    | error fault => split <;> simp [plan, planChangeTarget, planAddTarget, he]
    | ok e =>
      rw [(entriesAt_of_entryAt he).2, Option.bind_some, ok_bind]
      exact apply_ite m.plan _ _ _
  all_goals rfl

theorem incoming_decided (e : Edit) : (m.decided e).incoming = e.incoming := by
  cases e
  case setProperty | setTarget => rw [decided]; split <;> rfl
  all_goals rfl

theorem decided_decided (e : Edit) : m.decided (m.decided e) = m.decided e := by
  cases e
  case setProperty | setTarget => rw [decided]; split <;> rfl
  all_goals rfl

variable {m : Model} {e : Edit} {c : Change}

/-- What leaves is below the node that is to leave. -/
theorem id_of_leaving {root : NodeId} {tree : Subtree} (hk : m.nodes.Keyed)
    (h : m.leaving root = .ok tree) : tree.root.id = root :=
  NodeTable.id_root_collect hk (leaving_eq_ok.1 h).1

/-- A change of a whole node takes over what the edit says. Only a partition that leaves has to be
    told again by its root. -/
theorem edit_of_plan_node (hk : m.nodes.Keyed) (hs : e.subject = .node) (h : m.plan e = .ok c) :
    c.edit = e := by
  cases e <;> cases hs
  case addPartition tree =>
    obtain ⟨-, -, -, -, rfl⟩ := planAddPartition_eq_ok.1 h
    rfl
  case deletePartition id =>
    obtain ⟨-, -, -, gone, hgone, rfl⟩ := planDeletePartition_eq_ok.1 h
    rw [Change.edit, id_of_leaving hk hgone]
  case changeClassifier id new =>
    obtain ⟨-, n, -, -, -, rfl⟩ := planChangeClassifier_eq_ok.1 h
    rfl

/-- A change of a property is of the kind that the edit asks for, as the edit is decided. -/
theorem edit_of_plan_property (hd : m.decided e = e) (hs : e.subject = .property)
    (h : m.plan e = .ok c) : c.edit = e := by
  cases e <;> cases hs
  case addProperty id property v =>
    obtain ⟨-, -, -, -, -, rfl⟩ := planAddProperty_eq_ok.1 h
    rfl
  case deleteProperty id property =>
    obtain ⟨v, -, rfl⟩ := planDeleteProperty_eq_ok.1 h
    rfl
  case changeProperty id property v =>
    obtain ⟨-, -, -, -, old, -, rfl⟩ := planChangeProperty_eq_ok.1 h
    rfl
  case setProperty id property v =>
    -- No decided edit is of this kind.
    rw [decided] at hd
    split at hd <;> cases hd

/-- A change of a child takes over the place from the edit. A move adds where the child has been,
    and a subtree that leaves is told by its root. -/
theorem edit_of_plan_child (hk : m.nodes.Keyed) (hs : e.subject = .child) (h : m.plan e = .ok c) :
    c.edit = e := by
  cases e <;> cases hs
  case addChild place new =>
    obtain ⟨-, -, -, -, -, -, rfl⟩ := planAddChild_eq_ok.1 h
    rfl
  case deleteChild place old =>
    obtain ⟨-, gone, hgone, rfl⟩ := planDeleteChild_eq_ok.1 h
    rw [Change.edit, id_of_leaving hk hgone]
  case replaceChild place old new =>
    obtain ⟨-, -, gone, hgone, rfl⟩ := planReplaceChild_eq_ok.1 h
    rw [Change.edit, id_of_leaving hk hgone]
  case moveChild target moved =>
    obtain ⟨-, -, source, -, -, -, -, -, rfl⟩ := planMoveChild_eq_ok.1 h
    rw [Change.edit, Shift.target_between]
  case moveAndReplaceChild target moved old =>
    obtain ⟨source, gone, -, -, -, -, hgone, rfl⟩ := planMoveAndReplaceChild_eq_ok.1 h
    rw [Change.edit, Shift.target_between, id_of_leaving hk hgone]

/-- A change of an annotation stands for the edit in the same way as that of a child. -/
theorem edit_of_plan_annotation (hk : m.nodes.Keyed) (hs : e.subject = Subject.annotation)
    (h : m.plan e = .ok c) : c.edit = e := by
  cases e <;> cases hs
  case addAnnotation spot new =>
    obtain ⟨-, -, -, -, -, rfl⟩ := planAddAnnotation_eq_ok.1 h
    rfl
  case deleteAnnotation spot old =>
    obtain ⟨-, gone, hgone, rfl⟩ := planDeleteAnnotation_eq_ok.1 h
    rw [Change.edit, id_of_leaving hk hgone]
  case replaceAnnotation spot old new =>
    obtain ⟨-, -, -, gone, hgone, rfl⟩ := planReplaceAnnotation_eq_ok.1 h
    rw [Change.edit, id_of_leaving hk hgone]
  case moveAnnotation target moved =>
    obtain ⟨-, source, -, -, -, -, rfl⟩ := planMoveAnnotation_eq_ok.1 h
    rw [Change.edit, AnnotationShift.target_between]
  case moveAndReplaceAnnotation target moved old =>
    obtain ⟨source, gone, -, -, -, -, hgone, rfl⟩ := planMoveAndReplaceAnnotation_eq_ok.1 h
    rw [Change.edit, AnnotationShift.target_between, id_of_leaving hk hgone]

/-- A change of an entry takes over both places that the edit names. -/
theorem edit_of_plan_entry (hs : e.subject = .entry) (h : m.plan e = .ok c) : c.edit = e := by
  cases e <;> cases hs
  case addEntry place new =>
    obtain ⟨-, -, -, -, -, -, rfl⟩ := planAddEntry_eq_ok.1 h
    rfl
  case deleteEntry place =>
    obtain ⟨e, -, rfl⟩ := planDeleteEntry_eq_ok.1 h
    rfl
  case changeEntry place new =>
    obtain ⟨e, -, -, rfl⟩ := planChangeEntry_eq_ok.1 h
    rfl
  case moveEntry target source =>
    obtain ⟨e, -, -, -, -, -, -, rfl⟩ := planMoveEntry_eq_ok.1 h
    rw [Change.edit, Shift.target_between, Shift.source_between]
  case moveAndReplaceEntry target source =>
    obtain ⟨e, e', -, -, -, rfl⟩ := planMoveAndReplaceEntry_eq_ok.1 h
    rw [Change.edit, Shift.target_between, Shift.source_between]

/-- A change of one half of an entry is of the kind that the edit asks for, as the edit is
    decided. -/
theorem edit_of_plan_half (hd : m.decided e = e) (hs : e.subject = .half)
    (h : m.plan e = .ok c) : c.edit = e := by
  cases e <;> cases hs
  case addResolveInfo place info =>
    obtain ⟨e, -, -, rfl⟩ := planAddResolveInfo_eq_ok.1 h
    rfl
  case deleteResolveInfo place =>
    obtain ⟨e, old, -, -, -, rfl⟩ := planDeleteResolveInfo_eq_ok.1 h
    rfl
  case changeResolveInfo place info =>
    obtain ⟨e, old, -, -, rfl⟩ := planChangeResolveInfo_eq_ok.1 h
    rfl
  case addTarget place new =>
    obtain ⟨e, -, -, -, rfl⟩ := planAddTarget_eq_ok.1 h
    rfl
  case deleteTarget place =>
    obtain ⟨e, old, -, -, -, rfl⟩ := planDeleteTarget_eq_ok.1 h
    rfl
  case changeTarget place new =>
    obtain ⟨e, old, -, -, -, rfl⟩ := planChangeTarget_eq_ok.1 h
    rfl
  case setTarget place new =>
    -- No decided edit is of this kind.
    rw [decided] at hd
    split at hd <;> cases hd

/-- A change stands for the edit that it was planned from. -/
theorem edit_of_plan_decided (hk : m.nodes.Keyed) (hd : m.decided e = e)
    (h : m.plan e = .ok c) : c.edit = e := by
  cases hs : e.subject with
  | node => exact edit_of_plan_node hk hs h
  | property => exact edit_of_plan_property hd hs h
  | child => exact edit_of_plan_child hk hs h
  | annotation => exact edit_of_plan_annotation hk hs h
  | entry => exact edit_of_plan_entry hs h
  | half => exact edit_of_plan_half hd hs h

/-- A change stands for the edit that it was planned from, once that is decided. -/
theorem edit_of_plan (hk : m.nodes.Keyed) (h : m.plan e = .ok c) : c.edit = m.decided e :=
  edit_of_plan_decided hk (m.decided_decided e) ((m.plan_decided e).trans h)

/-- What has just been planned fits. -/
theorem replan_of_plan (hk : m.nodes.Keyed) (h : m.plan e = .ok c) : m.replan c = .ok c := by
  rw [replan, edit_of_plan hk h, plan_decided, h]

/-- A planned change brings what the edit brings. -/
theorem incoming_of_plan (hk : m.nodes.Keyed) (h : m.plan e = .ok c) :
    c.incoming = e.incoming := by
  rw [← c.incoming_edit, edit_of_plan hk h, incoming_decided]

end Model

end DeltaForest
