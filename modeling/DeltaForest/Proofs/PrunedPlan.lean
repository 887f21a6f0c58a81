import DeltaForest.Proofs.Pruned
import DeltaForest.Proofs.Standing
import DeltaForest.Protocol.Command.ToChange
import DeltaForest.Protocol.Event.ToChange

/-!
# Planning does not see empty lists

Whether a list without anything in it is stored or not makes no difference to what an edit is
planned as: in a model with all nodes pruned it is the same change, up to the subtrees that go,
which are taken from the pruned nodes (`Model.plan_pruned`). So each of the checks and each of the
questions that a plan is made of is answered by the pruned model as by the model itself.
-/

namespace DeltaForest

/-! ## Nodes -/

namespace Node

variable (n : Node)

/-- The child is looked for in the lists that hold something. -/
theorem findChild?_prune (child : NodeId) : n.prune.findChild? child = n.findChild? child := by
  rw [findChild?, prune, findChild?, Std.ExtTreeMap.toList_filter]
  induction n.containments.toList with
  | nil => rfl
  | cons p rest ih =>
    obtain ⟨c, ids⟩ := p
    cases ids with
    | nil => exact ih
    | cons id ids => simp only [List.filter_cons, List.isEmpty_cons, Bool.not_false, if_true,
        List.findSome?_cons, ih]

end Node

@[simp] theorem checkRoom_prune (n : Node) (feature : FeatureInfo) (count : Nat) :
    checkRoom n.prune feature count = checkRoom n feature count := rfl

/-- A node has something for the same features when it is pruned. -/
@[simp] theorem Model.setFeatures_prune (n : Node) : setFeatures n.prune = setFeatures n := by
  simp only [setFeatures, Node.prune, Std.ExtTreeMap.toList_filter, List.filter_filter,
    Bool.and_self]

/-! ## Tables -/

namespace NodeTable

variable {t : NodeTable}

theorem pruned_erase (id : NodeId) : pruned (t.erase id) = t.pruned.erase id := by
  ext1 k
  rw [lookup_pruned, lookup_erase, lookup_erase, lookup_pruned]
  split <;> rfl

/-- Who is above whom does not depend on empty lists. -/
theorem isAncestorOrSelf_pruned (ancestor id : NodeId) :
    t.pruned.isAncestorOrSelf ancestor id = t.isAncestorOrSelf ancestor id := by
  induction t, id using isAncestorOrSelf.induct ancestor with
  | case1 t => rw [isAncestorOrSelf, isAncestorOrSelf, if_pos rfl, if_pos rfl]
  | case2 t id hne hnone | case3 t id hne n hn hparent =>
    rw [isAncestorOrSelf_eq, isAncestorOrSelf_eq, above?_pruned]
    simp_all [above?]
  | case4 t id hne n hn above hparent ih =>
    rw [isAncestorOrSelf_eq, isAncestorOrSelf_eq, above?_pruned, above?_eq hn, hparent,
      Option.any_some, Option.any_some, ← pruned_erase, ih]

/-- In a pruned table the node is found pruned, or missed with the same fault. -/
theorem get_pruned (id : NodeId) : t.pruned.get id = Node.prune <$> t.get id := by
  rw [get, get, lookup_pruned]
  cases t[id]? <;> rfl

/-- Of a pruned table one takes out pruned subtrees. -/
theorem collect_pruned (root : NodeId) :
    t.pruned.collect root = Subtree.pruned <$> t.collect root := by
  have hmapM (ids : List NodeId) :
      ids.mapM t.pruned.get = List.map Node.prune <$> ids.mapM t.get := by
    induction ids with
    | nil => rfl
    | cons id ids ih =>
      simp only [List.mapM_cons, get_pruned, ih, bind_map_left, map_bind, map_pure, List.map_cons]
  rw [collect, collect, depthFirst_pruned, hmapM, bind_map_left, map_bind]
  refine bind_congr fun nodes => ?_
  cases nodes <;> rfl

/-- Whether ids are taken does not depend on empty lists. -/
theorem checkVacant_pruned (s : Subtree) : t.pruned.checkVacant s = t.checkVacant s := by
  simp only [checkVacant, contains_pruned]

end NodeTable

/-! ## Checks -/

/-- A model with all nodes pruned. -/
def Model.pruned (m : Model) : Model := ⟨m.types, m.nodes.pruned⟩

namespace Model

variable {m : Model}

@[simp] theorem types_pruned : m.pruned.types = m.types := rfl

/-- Of a pruned model one gets the node pruned, or the same fault. -/
@[simp] theorem node_pruned (id : NodeId) : m.pruned.node id = Node.prune <$> m.node id :=
  NodeTable.get_pruned id

@[simp] theorem checkApplicable_pruned (n : Node) (feature : FeatureInfo) :
    m.pruned.checkApplicable n.prune feature = m.checkApplicable n feature := rfl

/-- A slot is found with its node pruned, or missed with the same fault. -/
@[simp] theorem slot_pruned (kind : ElementKind) (id : NodeId) (feature : Handle) :
    m.pruned.slot kind id feature =
      (fun p => (p.1.prune, p.2)) <$> m.slot kind id feature := by
  simp [slot]

@[simp] theorem alreadySet_pruned {α : Type} (place : Place Handle) :
    m.pruned.alreadySet (α := α) place = m.alreadySet place := rfl

@[simp] theorem unset_pruned {α : Type} (place : Place Handle) :
    m.pruned.unset (α := α) place = m.unset place := rfl

/-- The same entry stands at a place. -/
@[simp] theorem entryAt_pruned (place : Place Handle) :
    m.pruned.entryAt place = m.entryAt place := by
  simp [entryAt]

@[simp] theorem checkEntry_pruned (e : Entry) : m.pruned.checkEntry e = m.checkEntry e := by
  rw [checkEntry, checkEntry]
  cases e.target <;> simp

@[simp] theorem checkAnnotation_pruned (n : Node) :
    m.pruned.checkAnnotation n = m.checkAnnotation n := rfl

@[simp] theorem checkNotBelow_pruned (moved target : NodeId) :
    m.pruned.checkNotBelow moved target = m.checkNotBelow moved target := by
  rw [checkNotBelow, checkNotBelow, pruned, NodeTable.isAncestorOrSelf_pruned]

/-- Whether a node would replace its owner does not depend on empty lists. -/
@[simp] theorem checkNotReplacingOwner_pruned (moved replaced : NodeId) :
    m.pruned.checkNotReplacingOwner moved replaced = m.checkNotReplacingOwner moved replaced := by
  rw [checkNotReplacingOwner, checkNotReplacingOwner, pruned, NodeTable.isAncestorOrSelf_pruned]

/-- A subtree may enter a model if it may enter the pruned one. -/
@[simp] theorem checkNew_pruned (s : Subtree) : m.pruned.checkNew s = m.checkNew s := by
  have hentry (coming : List NodeId) (e : Entry) :
      m.pruned.checkNewEntry coming e = m.checkNewEntry coming e := by
    rw [checkNewEntry, checkNewEntry, pruned]
    simp only [NodeTable.contains_pruned]
  have hnode (n : Node) : m.pruned.checkNewNode s n = m.checkNewNode s n := by
    rw [checkNewNode, checkNewNode, funext (hentry _)]
    rfl
  rw [checkNew, checkNew, funext hnode]
  exact congrArg (· >>= _) (NodeTable.checkVacant_pruned s)

/-- The same subtree may leave, pruned. -/
@[simp] theorem leaving_pruned (root : NodeId) :
    m.pruned.leaving root = Subtree.pruned <$> m.leaving root := by
  rw [leaving, leaving, pruned, NodeTable.collect_pruned, bind_map_left, map_bind]
  refine bind_congr fun s => ?_
  have hids : s.pruned.nodes.map Node.id = s.nodes.map Node.id := by
    simp [Subtree.nodes_pruned, Function.comp_def]
  -- Whoever refers to what is to leave does so whether pruned or not.
  have hrefer : (m.nodes.pruned.toList.filter fun p => p.1 ∉ s.nodes.map Node.id).findSome?
      (fun p => (p.2.targets.find? (· ∈ s.nodes.map Node.id)).map (·, p.1)) =
      (m.nodes.toList.filter fun p => p.1 ∉ s.nodes.map Node.id).findSome?
      (fun p => (p.2.targets.find? (· ∈ s.nodes.map Node.id)).map (·, p.1)) := by
    rw [NodeTable.pruned, Std.ExtTreeMap.toList_map, List.filter_map, List.findSome?_map]
    simp only [Function.comp_def, Node.targets_prune]
  simp only [hids, hrefer]
  cases (m.nodes.toList.filter fun p => p.1 ∉ s.nodes.map Node.id).findSome?
    (fun p => (p.2.targets.find? (· ∈ s.nodes.map Node.id)).map (·, p.1)) <;> rfl

/-- The same child stands at a place. -/
@[simp] theorem childAt_pruned (place : Place Handle) (named : NodeId) :
    m.pruned.childAt place named = m.childAt place named := by
  simp [childAt]

@[simp] theorem annotationAt_pruned (place : AnnotationPlace) (named : NodeId) :
    m.pruned.annotationAt place named = m.annotationAt place named := by
  simp [annotationAt]

/-- A child is found at the same place, as only empty lists are dropped. -/
@[simp] theorem locateChild_pruned (child : NodeId) :
    m.pruned.locateChild child = m.locateChild child := by
  simp [locateChild, Node.findChild?_prune]

/-- An annotation is found at the same place. -/
@[simp] theorem locateAnnotation_pruned (node : NodeId) :
    m.pruned.locateAnnotation node = m.locateAnnotation node := by
  simp [Model.locateAnnotation, Node.annotationIndex?]

/-- Pruning does not touch values. -/
@[simp] theorem currentValue_pruned (id : NodeId) (property : Handle) :
    m.pruned.currentValue id property = m.currentValue id property := by
  simp [currentValue]

/-! ## Edits -/

section Results

variable {α β : Type} (f : α → β)

@[simp] theorem map_ok (a : α) : f <$> (Except.ok a : Except Fault α) = .ok (f a) := rfl

@[simp] theorem map_error (fault : Fault) :
    f <$> (Except.error fault : Except Fault α) = .error fault :=
  rfl

@[simp] theorem map_ite (p : Prop) [Decidable p] (x y : Except Fault α) :
    f <$> (if p then x else y) = if p then f <$> x else f <$> y :=
  apply_ite (f <$> ·) p x y

@[simp] theorem map_unset (place : Place Handle) : f <$> m.unset place = m.unset place := by
  simp [unset]

end Results

variable (m)

/-- Whether something is added or changed is decided in the same way. -/
theorem decided_pruned (e : Edit) : m.pruned.decided e = m.decided e := by
  cases e
  case setProperty id property v =>
    have hproperty : m.pruned.nodes[id]?.bind (·.property? property) =
        m.nodes[id]?.bind (·.property? property) := by
      rw [pruned, NodeTable.lookup_pruned]
      cases m.nodes[id]? <;> rfl
    rw [decided, decided, hproperty]
  case setTarget place new => rw [decided, decided, pruned, NodeTable.entriesAt_pruned]
  all_goals rfl

/-- Edits that are decided are planned in the pruned model as in the model. -/
theorem plan_pruned_decided {e : Edit} (hd : m.decided e = e) :
    m.pruned.plan e = Change.oldPruned <$> m.plan e := by
  -- Every check comes out the same, so only the subtrees and nodes that are shown are pruned.
  cases e
  case addPartition =>
    simp [plan, planAddPartition, Change.oldPruned, Change.mapTrees]
  case deletePartition =>
    simp [plan, planDeletePartition, Change.oldPruned, Change.mapTrees]
    rfl
  case changeClassifier id new =>
    simp only [plan, planChangeClassifier, types_pruned, node_pruned, bind_map_left, map_bind,
      setFeatures_prune]
    refine bind_congr fun info => bind_congr fun n => ?_
    cases (setFeatures n).find? (!m.types.declares new ·) <;>
      simp [Change.oldPruned, Change.mapTrees]
  case addProperty =>
    simp [plan, planAddProperty, Change.oldPruned, Change.mapTrees]
    rfl
  case deleteProperty | changeProperty =>
    simp [plan, planDeleteProperty, planChangeProperty, Change.oldPruned, Change.mapTrees]
  case addChild | deleteChild | replaceChild | moveChild | moveAndReplaceChild =>
    simp [plan, planAddChild, planDeleteChild, planReplaceChild, planMoveChild,
      planMoveAndReplaceChild, Change.oldPruned, Change.mapTrees]
  case addAnnotation | deleteAnnotation | replaceAnnotation | moveAnnotation
    | moveAndReplaceAnnotation =>
    simp [plan, planAddAnnotation, planDeleteAnnotation, planReplaceAnnotation, planMoveAnnotation,
      planMoveAndReplaceAnnotation, Change.oldPruned, Change.mapTrees]
  case addEntry | deleteEntry | changeEntry | moveEntry | moveAndReplaceEntry =>
    simp [plan, planAddEntry, planDeleteEntry, planChangeEntry, planMoveEntry,
      planMoveAndReplaceEntry, Change.oldPruned, Change.mapTrees]
  case addResolveInfo | addTarget =>
    simp [plan, planAddResolveInfo, planAddTarget, Change.oldPruned, Change.mapTrees]
  case deleteResolveInfo | changeResolveInfo =>
    simp only [plan, planDeleteResolveInfo, planChangeResolveInfo, entryAt_pruned, map_bind]
    refine bind_congr fun e => ?_
    cases e.resolveInfo <;> simp [Change.oldPruned, Change.mapTrees]
  case deleteTarget | changeTarget =>
    simp only [plan, planDeleteTarget, planChangeTarget, entryAt_pruned, map_bind]
    refine bind_congr fun e => ?_
    cases e.target <;> simp [Change.oldPruned, Change.mapTrees]
  case setProperty | setTarget => rw [decided] at hd; split at hd <;> cases hd

/-- Edits are planned in the pruned model as in the model. -/
theorem plan_pruned (e : Edit) : m.pruned.plan e = Change.oldPruned <$> m.plan e := by
  rw [← plan_decided, decided_pruned, plan_pruned_decided m (m.decided_decided e), plan_decided]

end Model

/-! ## Messages -/

namespace Protocol

variable (m : Model)

/-- A chunk is read against what is there, whatever it looks like. -/
theorem resolveChunk_pruned (chunk : Chunk) :
    m.pruned.resolveChunk chunk = m.resolveChunk chunk := by
  simp only [Model.resolveChunk, Chunk.toSubtree, Model.pruned, NodeTable.contains_pruned]

/-- A command asks for the same edit when the model is pruned. -/
theorem Command.toEdit_pruned (c : Command) : c.toEdit m.pruned = c.toEdit m := by
  cases c
  case addPartition | addAnnotation | replaceAnnotation =>
    simp only [toEdit, resolveChunk_pruned]
  case addChild | replaceChild =>
    simp only [toEdit, resolveChunk_pruned]
    rfl
  case moveChild target moved | moveAndReplaceChild target moved old =>
    cases target <;> simp only [toEdit, toEdit.destination, Model.locateChild_pruned] <;> rfl
  case moveAnnotation target moved | moveAndReplaceAnnotation target moved old =>
    cases target <;> simp only [toEdit, toEdit.annotationDestination, Model.locateAnnotation_pruned]
  all_goals rfl

/-- An event tells of the same edit when the model is pruned. -/
theorem Event.toEdit_pruned (event : Event) : event.toEdit m.pruned = event.toEdit m := by
  cases event
  case partitionAdded | annotationAdded | annotationReplaced =>
    simp only [toEdit, resolveChunk_pruned]
  case childAdded | childReplaced =>
    simp only [toEdit, resolveChunk_pruned]
    rfl
  all_goals rfl

/-- Pruning the old trees of a change does not change its kind. -/
theorem map_checkKind (named : String) (c : Change) :
    Change.oldPruned <$> c.checkKind named = c.oldPruned.checkKind named := by
  have hkind : c.oldPruned.kind = c.kind := Change.kind_mapTrees _ _ c
  rw [Change.checkKind, Change.checkKind, hkind, Model.map_ite]
  rfl

/-- A command amounts to the same in the pruned model. -/
theorem Command.toChange_pruned (c : Command) :
    c.toChange m.pruned = Change.oldPruned <$> c.toChange m := by
  simp only [toChange, toEdit_pruned, Model.plan_pruned, map_bind, bind_map_left, map_checkKind]

/-- An event amounts to the same in the pruned model. -/
theorem Event.toChange_pruned (event : Event) :
    event.toChange m.pruned = Change.oldPruned <$> event.toChange m := by
  simp only [toChange, toEdit_pruned, Model.plan_pruned, map_bind, bind_map_left, map_checkKind]

end Protocol

end DeltaForest
