import DeltaForest.Proofs.Answers

/-!
# What planning answers

An edit names handles and nodes: a classifier, the features of the places that it is about, the
nodes that own these places, leave or are referred to. A planner looks them up, and from there it
gets to whatever the nodes that it finds name in turn. If all that may be asked for, those in the
edit (`Edit.Askable`) and those on the nodes that are there (`Model.Allows`), then planning the edit
comes to a change or to a fault that is allowed (`Model.failsOnly_plan`).

Behind each step of a planner stands one lemma, which says what may have to be asked for in that
step alone.
-/

namespace DeltaForest

variable {P : Fault → Prop}

/-- A node whose handles and whose targets may be asked for. -/
structure Node.Askable (P : Fault → Prop) (m : Model) (n : Node) : Prop where
  handles : ∀ h ∈ n.handles, m.types.Askable P h
  targets : ∀ x ∈ n.targets, m.nodes.Askable P x

/-- In a model plain faults are allowed, and whatever the nodes that are there say of their types,
    of the nodes above and of the nodes that they own may be asked for. -/
structure Model.Allows (m : Model) (P : Fault → Prop) : Prop where
  plain : AllowsPlain P
  handles : ∀ (k : NodeId) (n : Node), m.nodes[k]? = some n →
    ∀ h ∈ n.handles, m.types.Askable P h
  above : ∀ (k : NodeId) (n : Node), m.nodes[k]? = some n →
    ∀ p ∈ n.parent, m.nodes.Askable P p
  owned : ∀ (k : NodeId) (n : Node), m.nodes[k]? = some n →
    ∀ x ∈ n.owned, m.nodes.Askable P x

namespace Edit

/-- The handles that an edit names. -/
def handles : Edit → List Handle
  | changeClassifier _ new => [new]
  | addProperty _ property _ | deleteProperty _ property | changeProperty _ property _
  | setProperty _ property _ => [property]
  | addChild place _ | deleteChild place _ | replaceChild place _ _ => [place.feature]
  | moveChild target _ | moveAndReplaceChild target _ _ => [target.feature]
  | addEntry place _ | deleteEntry place | changeEntry place _ | addResolveInfo place _
  | deleteResolveInfo place | changeResolveInfo place _ | addTarget place _ | deleteTarget place
  | changeTarget place _ | setTarget place _ => [place.feature]
  | moveEntry target source | moveAndReplaceEntry target source =>
    [target.feature, source.feature]
  | _ => []

/-- The ids of nodes that an edit names, apart from those of nodes that come with it. -/
def ids : Edit → List NodeId
  | addPartition _ => []
  | deletePartition node | changeClassifier node _ | addProperty node _ _ | deleteProperty node _
  | changeProperty node _ _ | setProperty node _ _ => [node]
  | addChild place _ => [place.owner]
  | deleteChild place old | replaceChild place old _ => [place.owner, old]
  | moveChild target moved => [target.owner, moved]
  | moveAndReplaceChild target moved old => [target.owner, moved, old]
  | addAnnotation place _ => [place.owner]
  | deleteAnnotation place old | replaceAnnotation place old _ => [place.owner, old]
  | moveAnnotation target moved => [target.owner, moved]
  | moveAndReplaceAnnotation target moved old => [target.owner, moved, old]
  | addEntry place new | changeEntry place new => place.owner :: new.target.toList
  | deleteEntry place | addResolveInfo place _ | deleteResolveInfo place
  | changeResolveInfo place _ | deleteTarget place => [place.owner]
  | moveEntry target source | moveAndReplaceEntry target source => [target.owner, source.owner]
  | addTarget place new | changeTarget place new | setTarget place new => [place.owner, new]

/-- An edit that names only what may be asked for, also on the nodes that come with it. -/
structure Askable (P : Fault → Prop) (m : Model) (e : Edit) : Prop where
  handles : ∀ h ∈ e.handles, m.types.Askable P h
  ids : ∀ id ∈ e.ids, m.nodes.Askable P id
  coming : ∀ tree ∈ e.incoming, ∀ n ∈ tree.nodes, n.Askable P m

end Edit

/-! ## Checks -/

section Checks

variable (hp : AllowsPlain P)

variable {α : Type} {xs : List α} {owner expected found : NodeId} {list : NodeList} {i count : Nat}
variable {n : Node} {info : FeatureInfo} {v : Value} {e : Entry}

include hp

/-- A position behind the last element is a plain fault. -/
theorem failsOnly_elementAt : FailsOnly P (elementAt xs owner list i) := by
  rw [elementAt]
  split
  · exact .ok _
  · exact hp.error trivial

/-- A position too far behind is a plain fault. -/
theorem failsOnly_checkInsert : FailsOnly P (checkInsert xs owner list i) :=
  .ite (fun _ => .ok _) fun _ => hp.error trivial

theorem failsOnly_checkRoom : FailsOnly P (checkRoom n info count) :=
  .ite (fun _ => .ok _) fun _ => hp.error trivial

/-- A value that is none of its type is a plain fault. -/
theorem failsOnly_checkValue : FailsOnly P (checkValue info v) := by
  rw [checkValue]
  split
  · exact hp.error trivial
  · exact .ite (fun _ => .ok _) fun _ => hp.error trivial

/-- Somebody else than the one that is expected is a plain fault. -/
theorem failsOnly_checkExpected : FailsOnly P (checkExpected expected found) :=
  .ite (fun _ => .ok _) fun _ => hp.error trivial

/-- An entry that says nothing is a plain fault. -/
theorem Entry.failsOnly_check : FailsOnly P e.check :=
  .ite (fun _ => hp.error trivial) fun _ => .ok _

/-- An id that is taken already is a plain fault. -/
theorem NodeTable.failsOnly_checkVacant {t : NodeTable} {s : Subtree} :
    FailsOnly P (t.checkVacant s) := by
  rw [checkVacant]
  split
  · exact hp.error trivial
  · exact .ok _

end Checks

namespace Model

variable {m : Model} (hm : m.Allows P)
variable {n : Node} {info : FeatureInfo} {kind : ElementKind} {id child moved old target : NodeId}
variable {feature : Handle} {place source : Place Handle} {spot : AnnotationPlace} {e : Entry}
variable {v : Value} {new tree : Subtree}

/-- Only a node that may not be asked for can be missed. -/
theorem failsOnly_node (hid : m.nodes.Askable P id) : FailsOnly P (m.node id) :=
  NodeTable.failsOnly_get_iff.2 hid

include hm

theorem failsOnly_checkApplicable : FailsOnly P (m.checkApplicable n info) :=
  .ite (fun _ => .ok _) fun _ => hm.plain.error trivial

/-- A child is looked for in the node above it, which is there as nodes hang together. -/
theorem failsOnly_locateChild (hchild : m.nodes.Askable P child) :
    FailsOnly P (m.locateChild child) := by
  refine .bind (failsOnly_node hchild) fun n hn => ?_
  split
  · exact hm.plain.error trivial
  · -- The node above is there since the child is.
    next p hp =>
    refine .bind (failsOnly_node (hm.above _ n (node_eq_ok.1 hn) p hp)) fun above _ => ?_
    split
    · exact .ok _
    · exact hm.plain.error trivial

/-- An annotation is looked for in the node above it in the same way as a child. -/
theorem failsOnly_locateAnnotation (hchild : m.nodes.Askable P child) :
    FailsOnly P (m.locateAnnotation child) := by
  refine .bind (failsOnly_node hchild) fun n hn => ?_
  split
  · exact hm.plain.error trivial
  · next p hp =>
    refine .bind (failsOnly_node (hm.above _ n (node_eq_ok.1 hn) p hp)) fun above _ => ?_
    split
    · exact .ok _
    · exact hm.plain.error trivial

/-- A slot is missed with its node or with its feature, or refused for a plain reason. -/
theorem failsOnly_slot (hi : m.types.Askable P feature) (hid : m.nodes.Askable P id) :
    FailsOnly P (m.slot kind id feature) := by
  refine .bind (TypeRegistry.failsOnly_featureAt hm.plain hi) fun info _ => ?_
  refine .bind (failsOnly_node hid) fun n _ => ?_
  exact .bind (failsOnly_checkApplicable hm) fun _ _ => .ok _

/-- The fault about a value that is there tells the feature by its name, which is looked up. -/
theorem failsOnly_alreadySet {α : Type} (hi : m.types.Askable P place.feature) :
    FailsOnly P (m.alreadySet place : Except Fault α) :=
  (TypeRegistry.failsOnly_pointer_iff.2 hi).bind fun _ _ => hm.plain.error trivial

theorem failsOnly_unset {α : Type} (hi : m.types.Askable P place.feature) :
    FailsOnly P (m.unset place : Except Fault α) :=
  (TypeRegistry.failsOnly_pointer_iff.2 hi).bind fun _ _ => hm.plain.error trivial

/-- An entry is read in a slot. -/
theorem failsOnly_entryAt (hi : m.types.Askable P place.feature)
    (ho : m.nodes.Askable P place.owner) : FailsOnly P (m.entryAt place) :=
  .bind (failsOnly_slot hm hi ho) fun _ _ => failsOnly_elementAt hm.plain

/-- Only the target of an entry can be missed. -/
theorem failsOnly_checkEntry (he : ∀ x ∈ e.target, m.nodes.Askable P x) :
    FailsOnly P (m.checkEntry e) := by
  refine .bind (e.failsOnly_check hm.plain) fun _ _ => ?_
  split
  · next x hx => exact .bind (failsOnly_node (he x hx)) fun _ _ => .ok _
  · exact .ok _

/-- An annotation is refused for its classifier, which has been issued. -/
theorem failsOnly_checkAnnotation (hn : ∀ h ∈ n.handles, m.types.Askable P h) :
    FailsOnly P (m.checkAnnotation n) := by
  refine .bind (TypeRegistry.failsOnly_classifierAt hm.plain (hn _ List.mem_cons_self))
    fun info _ => ?_
  exact .ite (fun _ => .ok _) fun _ => hm.plain.error trivial

theorem failsOnly_checkNotBelow : FailsOnly P (m.checkNotBelow moved target) :=
  .ite (fun _ => hm.plain.error trivial) fun _ => .ok _

theorem failsOnly_checkNotReplacingOwner : FailsOnly P (m.checkNotReplacingOwner moved old) :=
  .ite (fun _ => hm.plain.error trivial) fun _ => .ok _

/-! ## Subtrees that enter or leave -/

/-- A property of a new node is refused for its value, or as one that is not declared. -/
theorem failsOnly_checkNewProperty (hi : m.types.Askable P feature) :
    FailsOnly P (m.checkNewProperty n feature v) := by
  refine .bind (TypeRegistry.failsOnly_featureAt hm.plain hi) fun info _ => ?_
  exact .bind (failsOnly_checkApplicable hm) fun _ _ => failsOnly_checkValue hm.plain

/-- A list on a new node is refused for its length, or for a feature that is not declared. -/
theorem failsOnly_checkNewList {count : Nat} (hi : m.types.Askable P feature) :
    FailsOnly P (m.checkNewList kind n feature count) := by
  refine .bind (TypeRegistry.failsOnly_featureAt hm.plain hi) fun info _ => ?_
  refine .bind (failsOnly_checkApplicable hm) fun _ _ => ?_
  exact .ite (fun _ => failsOnly_checkRoom hm.plain) fun _ => .ok _

/-- A target that neither comes along nor is there is one that may be asked for. -/
theorem failsOnly_checkNewEntry {coming : List NodeId}
    (he : ∀ x ∈ e.target, m.nodes.Askable P x) : FailsOnly P (m.checkNewEntry coming e) := by
  refine .bind (e.failsOnly_check hm.plain) fun _ _ => ?_
  split
  · next x hx =>
    refine .ite (fun habsent => .error ?_) fun _ => .ok _
    -- Whoever is there would not be absent.
    refine (he x hx).resolve_left fun hmem => ?_
    simp [Std.ExtTreeMap.mem_iff_contains.1 hmem] at habsent
  · exact .ok _

/-- A new node can be checked if what it names may be asked for, and the handles on the annotations
    that come with it. -/
theorem failsOnly_checkNewNode (htree : ∀ n ∈ tree.nodes, n.Askable P m) (hn : n.Askable P m) :
    FailsOnly P (m.checkNewNode tree n) := by
  -- A feature with something stored is one of the handles of the node.
  have hstored {α : Type} {stored : FeatureMap α} {h : Handle} {a : α}
      (hmem : (h, a) ∈ stored.toList) : h ∈ stored :=
    mem_of_lookup (Std.ExtTreeMap.mem_toList_iff_getElem?_eq_some.1 hmem)
  refine .bind (TypeRegistry.failsOnly_classifierAt hm.plain (hn.handles _ List.mem_cons_self))
    fun _ _ => ?_
  refine .bind (.forM fun (p, v) hmem => ?_) fun _ _ => ?_
  · have hp := hn.handles _ (Node.mem_handles.2 (.inr (.inl (hstored hmem))))
    exact failsOnly_checkNewProperty hm hp
  refine .bind (.forM fun (c, ids) hmem => ?_) fun _ _ => ?_
  · have hc := hn.handles _ (Node.mem_handles.2 (.inr (.inr (.inl (hstored hmem)))))
    exact failsOnly_checkNewList hm hc
  refine .bind (.forM fun (r, es) hmem => ?_) fun _ _ => ?_
  · have hr := hn.handles _ (Node.mem_handles.2 (.inr (.inr (.inr (hstored hmem)))))
    refine .bind (failsOnly_checkNewList hm hr) fun _ _ => .forM fun e he => ?_
    refine failsOnly_checkNewEntry hm fun x hx => hn.targets x ?_
    exact List.mem_filterMap.2 ⟨e, List.mem_flatMap.2 ⟨(r, es), hmem, he⟩, hx⟩
  -- Of the annotations, those that do not come along are not looked at.
  refine .forM fun annotation _ => ?_
  split
  · next a ha =>
    exact failsOnly_checkAnnotation hm (htree a (List.mem_of_find?_eq_some ha)).handles
  · exact .ok _

/-- A subtree that comes is looked through node by node. -/
theorem failsOnly_checkNew (htree : ∀ n ∈ tree.nodes, n.Askable P m) :
    FailsOnly P (m.checkNew tree) := by
  refine .bind (NodeTable.failsOnly_checkVacant hm.plain) fun _ _ => .forM fun n hn => ?_
  exact failsOnly_checkNewNode hm htree (htree n hn)

/-- Everything below a node that may be asked for may be asked for. -/
theorem askable_of_mem_depthFirst (hid : m.nodes.Askable P id) :
    ∀ k ∈ m.nodes.depthFirst id, m.nodes.Askable P k := by
  intro k hk
  cases NodeTable.mem_depthFirst.1 hk with
  | self => exact hid
  | step _ hn howned => exact hm.owned _ _ hn k howned

/-- A subtree is refused leave for a plain reason: somebody outside it refers to it. -/
theorem failsOnly_leaving (hid : m.nodes.Askable P id) : FailsOnly P (m.leaving id) := by
  refine .bind (NodeTable.failsOnly_collect (askable_of_mem_depthFirst hm hid)) fun s _ => ?_
  dsimp only
  split
  · exact hm.plain.error trivial
  · exact .ok _

/-! ## Partitions, classifiers and properties -/

/-- Of a partition that comes, the nodes are looked at, and nothing else. -/
theorem failsOnly_planAddPartition (htree : ∀ n ∈ tree.nodes, n.Askable P m) :
    FailsOnly P (m.planAddPartition tree) := by
  have hroot := (htree tree.root List.mem_cons_self).handles _ List.mem_cons_self
  refine .bind (TypeRegistry.failsOnly_classifierAt hm.plain hroot) fun info _ => ?_
  -- The classifier of the root is looked up before the nodes are.
  split
  · exact .bind (failsOnly_checkNew hm htree) fun _ _ => .ok _
  · exact hm.plain.error trivial

section Content

variable (hid : m.nodes.Askable P id)

include hid

/-- Of a partition that goes, the root is looked for. -/
theorem failsOnly_planDeletePartition : FailsOnly P (m.planDeletePartition id) := by
  refine .bind (failsOnly_node hid) fun n _ => ?_
  refine .ite (fun _ => hm.plain.error trivial) fun _ => ?_
  exact .bind (failsOnly_leaving hm hid) fun _ _ => .ok _

/-- Another classifier is refused for the sake of a feature that the node has something for. -/
theorem failsOnly_planChangeClassifier {h : Handle} (hi : m.types.Askable P h) :
    FailsOnly P (m.planChangeClassifier id h) := by
  refine .bind (TypeRegistry.failsOnly_classifierAt hm.plain hi) fun _ _ => ?_
  refine .bind (failsOnly_node hid) fun n hn => ?_
  split
  · -- The fault names the feature, which the node itself stores.
    next feature hfound =>
    have hset := Node.mem_handles_of_setFeatures (List.mem_of_find?_eq_some hfound)
    have hfeature := hm.handles _ n (node_eq_ok.1 hn) feature hset
    exact .bind (TypeRegistry.failsOnly_pointer_iff.2 hfeature) fun _ _ => hm.plain.error trivial
  · exact .ok _

variable {property : Handle} (hi : m.types.Askable P property)

include hi

/-- A value is read in a slot, and one that is not set is a plain fault. -/
theorem failsOnly_currentValue : FailsOnly P (m.currentValue id property) := by
  refine .bind (failsOnly_slot hm hi hid) fun (n, info) _ => ?_
  dsimp only
  split
  · exact .ok _
  · exact hm.plain.error trivial

/-- A value is refused because there is one already, or for a plain reason. -/
theorem failsOnly_planAddProperty : FailsOnly P (m.planAddProperty id property v) := by
  refine .bind (failsOnly_slot hm hi hid) fun (n, info) _ => ?_
  refine .bind (failsOnly_checkValue hm.plain) fun _ _ => ?_
  exact .ite (fun _ => hm.plain.error trivial) fun _ => .ok _

theorem failsOnly_planDeleteProperty : FailsOnly P (m.planDeleteProperty id property) :=
  .bind (failsOnly_currentValue hm hid hi) fun _ _ => .ok _

theorem failsOnly_planChangeProperty : FailsOnly P (m.planChangeProperty id property v) := by
  refine .bind (failsOnly_slot hm hi hid) fun (n, info) _ => ?_
  refine .bind (failsOnly_checkValue hm.plain) fun _ _ => ?_
  exact .bind (failsOnly_currentValue hm hid hi) fun _ _ => .ok _

/-- Whichever way setting a value turns out, the same slot is looked at. -/
theorem failsOnly_planSetProperty : FailsOnly P (m.planSetProperty id property v) := by
  refine .bind (failsOnly_slot hm hi hid) fun (n, info) _ => ?_
  refine .ite (fun _ => ?_) fun _ => ?_
  · exact failsOnly_planChangeProperty hm hid hi
  · exact failsOnly_planAddProperty hm hid hi

end Content

/-! ## Children -/

section Children

variable (hi : m.types.Askable P place.feature) (ho : m.nodes.Askable P place.owner)

include hi ho

/-- Of a child that comes, the place is looked at and then the nodes that come. -/
theorem failsOnly_planAddChild (htree : ∀ n ∈ new.nodes, n.Askable P m) :
    FailsOnly P (m.planAddChild place new) := by
  refine .bind (failsOnly_slot hm hi ho) fun (n, info) _ => ?_
  refine .bind (failsOnly_checkInsert hm.plain) fun _ _ => ?_
  refine .bind (failsOnly_checkRoom hm.plain) fun _ _ => ?_
  exact .bind (failsOnly_checkNew hm htree) fun _ _ => .ok _

/-- A child is looked for in a slot. -/
theorem failsOnly_childAt : FailsOnly P (m.childAt place old) := by
  refine .bind (failsOnly_slot hm hi ho) fun (n, info) _ => ?_
  exact .bind (failsOnly_elementAt hm.plain) fun _ _ => failsOnly_checkExpected hm.plain

/-- Of a child that goes, the place is looked at and then what is below the child. -/
theorem failsOnly_planDeleteChild (hold : m.nodes.Askable P old) :
    FailsOnly P (m.planDeleteChild place old) := by
  refine .bind (failsOnly_childAt hm hi ho) fun _ _ => ?_
  exact .bind (failsOnly_leaving hm hold) fun _ _ => .ok _

/-- Both the child that goes and the nodes that come are looked at. -/
theorem failsOnly_planReplaceChild (hold : m.nodes.Askable P old)
    (htree : ∀ n ∈ new.nodes, n.Askable P m) : FailsOnly P (m.planReplaceChild place old new) := by
  refine .bind (failsOnly_childAt hm hi ho) fun _ _ => ?_
  refine .bind (failsOnly_checkNew hm htree) fun _ _ => ?_
  exact .bind (failsOnly_leaving hm hold) fun _ _ => .ok _

/-- The checks at the end of a move are about positions and room. -/
theorem failsOnly_planMoveChild (hmoved : m.nodes.Askable P moved) :
    FailsOnly P (m.planMoveChild place moved) := by
  refine .bind (failsOnly_slot hm hi ho) fun (n, info) _ => ?_
  refine .bind (failsOnly_locateChild hm hmoved) fun source _ => ?_
  refine .bind (failsOnly_checkNotBelow hm) fun _ _ => ?_
  refine .ite (fun _ => ?_) fun _ => ?_
  · exact .bind (failsOnly_elementAt hm.plain) fun _ _ => .ok _
  · refine .bind (failsOnly_checkInsert hm.plain) fun _ _ => ?_
    exact .bind (failsOnly_checkRoom hm.plain) fun _ _ => .ok _

/-- Both the child that is moved and the one that goes are looked for. -/
theorem failsOnly_planMoveAndReplaceChild (hmoved : m.nodes.Askable P moved)
    (hold : m.nodes.Askable P old) : FailsOnly P (m.planMoveAndReplaceChild place moved old) := by
  refine .bind (failsOnly_childAt hm hi ho) fun _ _ => ?_
  refine .bind (failsOnly_locateChild hm hmoved) fun source _ => ?_
  refine .bind (failsOnly_checkNotBelow hm) fun _ _ => ?_
  refine .bind (failsOnly_checkNotReplacingOwner hm) fun _ _ => ?_
  exact .bind (failsOnly_leaving hm hold) fun _ _ => .ok _

end Children

/-! ## Annotations -/

section Annotations

variable (ho : m.nodes.Askable P spot.owner)

include ho

/-- Of an annotation that comes, the node above is looked at and then the nodes that come. -/
theorem failsOnly_planAddAnnotation (htree : ∀ n ∈ new.nodes, n.Askable P m) :
    FailsOnly P (m.planAddAnnotation spot new) := by
  have hcheck := failsOnly_checkAnnotation hm (htree new.root List.mem_cons_self).handles
  refine .bind (failsOnly_node ho) fun n _ => ?_
  refine .bind (failsOnly_checkInsert hm.plain) fun _ _ => ?_
  refine .bind hcheck fun _ _ => ?_
  exact .bind (failsOnly_checkNew hm htree) fun _ _ => .ok _

theorem failsOnly_annotationAt : FailsOnly P (m.annotationAt spot old) := by
  refine .bind (failsOnly_node ho) fun _ _ => ?_
  exact .bind (failsOnly_elementAt hm.plain) fun _ _ => failsOnly_checkExpected hm.plain

/-- Of an annotation that goes, the place is looked at and then what is below it. -/
theorem failsOnly_planDeleteAnnotation (hold : m.nodes.Askable P old) :
    FailsOnly P (m.planDeleteAnnotation spot old) := by
  refine .bind (failsOnly_annotationAt hm ho) fun _ _ => ?_
  exact .bind (failsOnly_leaving hm hold) fun _ _ => .ok _

theorem failsOnly_planReplaceAnnotation (hold : m.nodes.Askable P old)
    (htree : ∀ n ∈ new.nodes, n.Askable P m) :
    FailsOnly P (m.planReplaceAnnotation spot old new) := by
  have hcheck := failsOnly_checkAnnotation hm (htree new.root List.mem_cons_self).handles
  refine .bind (failsOnly_annotationAt hm ho) fun _ _ => ?_
  refine .bind hcheck fun _ _ => ?_
  refine .bind (failsOnly_checkNew hm htree) fun _ _ => ?_
  exact .bind (failsOnly_leaving hm hold) fun _ _ => .ok _

/-- An annotation that is moved is looked for where it stands. -/
theorem failsOnly_planMoveAnnotation (hmoved : m.nodes.Askable P moved) :
    FailsOnly P (m.planMoveAnnotation spot moved) := by
  have hlocate := failsOnly_locateAnnotation hm hmoved
  refine .bind (failsOnly_node ho) fun n _ => ?_
  refine .bind hlocate fun source _ => ?_
  refine .bind (failsOnly_checkNotBelow hm) fun _ _ => ?_
  refine .ite (fun _ => ?_) fun _ => ?_
  · exact .bind (failsOnly_elementAt hm.plain) fun _ _ => .ok _
  · exact .bind (failsOnly_checkInsert hm.plain) fun _ _ => .ok _

/-- Both the annotation that is moved and the one that goes are looked for. -/
theorem failsOnly_planMoveAndReplaceAnnotation (hmoved : m.nodes.Askable P moved)
    (hold : m.nodes.Askable P old) :
    FailsOnly P (m.planMoveAndReplaceAnnotation spot moved old) := by
  have hlocate := failsOnly_locateAnnotation hm hmoved
  refine .bind (failsOnly_annotationAt hm ho) fun _ _ => ?_
  refine .bind hlocate fun source _ => ?_
  refine .bind (failsOnly_checkNotBelow hm) fun _ _ => ?_
  refine .bind (failsOnly_checkNotReplacingOwner hm) fun _ _ => ?_
  exact .bind (failsOnly_leaving hm hold) fun _ _ => .ok _

end Annotations

/-! ## Entries -/

section Entries

variable (hi : m.types.Askable P place.feature) (ho : m.nodes.Askable P place.owner)

include hi ho

/-- Of an entry that comes, the target is looked for, if there is one. -/
theorem failsOnly_planAddEntry (he : ∀ x ∈ e.target, m.nodes.Askable P x) :
    FailsOnly P (m.planAddEntry place e) := by
  refine .bind (failsOnly_slot hm hi ho) fun (n, info) _ => ?_
  refine .bind (failsOnly_checkInsert hm.plain) fun _ _ => ?_
  refine .bind (failsOnly_checkRoom hm.plain) fun _ _ => ?_
  exact .bind (failsOnly_checkEntry hm he) fun _ _ => .ok _

theorem failsOnly_planDeleteEntry : FailsOnly P (m.planDeleteEntry place) :=
  .bind (failsOnly_entryAt hm hi ho) fun _ _ => .ok _

theorem failsOnly_planChangeEntry (he : ∀ x ∈ e.target, m.nodes.Askable P x) :
    FailsOnly P (m.planChangeEntry place e) := by
  refine .bind (failsOnly_entryAt hm hi ho) fun _ _ => ?_
  exact .bind (failsOnly_checkEntry hm he) fun _ _ => .ok _

/-- Both places that a move of an entry names are looked at. -/
theorem failsOnly_planMoveEntry (hs : m.types.Askable P source.feature)
    (hso : m.nodes.Askable P source.owner) : FailsOnly P (m.planMoveEntry place source) := by
  refine .bind (failsOnly_entryAt hm hs hso) fun e _ => ?_
  refine .bind (failsOnly_slot hm hi ho) fun (n, info) _ => ?_
  refine .ite (fun _ => ?_) fun _ => ?_
  · exact .bind (failsOnly_elementAt hm.plain) fun _ _ => .ok _
  · refine .bind (failsOnly_checkInsert hm.plain) fun _ _ => ?_
    exact .bind (failsOnly_checkRoom hm.plain) fun _ _ => .ok _

theorem failsOnly_planMoveAndReplaceEntry (hs : m.types.Askable P source.feature)
    (hso : m.nodes.Askable P source.owner) :
    FailsOnly P (m.planMoveAndReplaceEntry place source) := by
  refine .bind (failsOnly_entryAt hm hs hso) fun e _ => ?_
  refine .bind (failsOnly_entryAt hm hi ho) fun e' _ => ?_
  exact .ite (fun _ => hm.plain.error trivial) fun _ => .ok _

theorem failsOnly_planAddResolveInfo {info : String} :
    FailsOnly P (m.planAddResolveInfo place info) := by
  refine .bind (failsOnly_entryAt hm hi ho) fun e _ => ?_
  exact .ite (fun _ => .bind (failsOnly_alreadySet hm hi) fun _ _ => .ok _) fun _ => .ok _

/-- The last half of an entry cannot be deleted, which is a plain fault. -/
theorem failsOnly_planDeleteResolveInfo : FailsOnly P (m.planDeleteResolveInfo place) := by
  refine .bind (failsOnly_entryAt hm hi ho) fun e _ => ?_
  split
  · exact failsOnly_unset hm hi
  · exact .ite (fun _ => hm.plain.error trivial) fun _ => .ok _

theorem failsOnly_planChangeResolveInfo {info : String} :
    FailsOnly P (m.planChangeResolveInfo place info) := by
  refine .bind (failsOnly_entryAt hm hi ho) fun e _ => ?_
  split
  · exact failsOnly_unset hm hi
  · exact .ok _

/-- The last half of an entry is not taken away, which is a plain reason. -/
theorem failsOnly_planDeleteTarget : FailsOnly P (m.planDeleteTarget place) := by
  refine .bind (failsOnly_entryAt hm hi ho) fun e _ => ?_
  split
  · exact failsOnly_unset hm hi
  · exact .ite (fun _ => hm.plain.error trivial) fun _ => .ok _

variable (hid : m.nodes.Askable P id)

include hid

/-- A new target is looked for. -/
theorem failsOnly_planAddTarget : FailsOnly P (m.planAddTarget place id) := by
  have hnode : FailsOnly P (m.node id) := failsOnly_node hid
  refine .bind (failsOnly_entryAt hm hi ho) fun e _ => ?_
  refine .ite (fun _ => ?_) fun _ => .bind hnode fun _ _ => .ok _
  exact .bind (failsOnly_alreadySet hm hi) fun _ _ => .bind hnode fun _ _ => .ok _

theorem failsOnly_planChangeTarget : FailsOnly P (m.planChangeTarget place id) := by
  refine .bind (failsOnly_entryAt hm hi ho) fun e _ => ?_
  split
  · exact failsOnly_unset hm hi
  · exact .bind (failsOnly_node hid) fun _ _ => .ok _

/-- Whichever way setting a target turns out, the same entry and the same target are looked at. -/
theorem failsOnly_planSetTarget : FailsOnly P (m.planSetTarget place id) := by
  refine .bind (failsOnly_entryAt hm hi ho) fun e _ => ?_
  refine .ite (fun _ => ?_) fun _ => ?_
  · exact failsOnly_planChangeTarget hm hi ho hid
  · exact failsOnly_planAddTarget hm hi ho hid

end Entries

/-! ## All edits -/

/-- An edit that names what may be asked for is planned, or refused as is allowed. -/
theorem failsOnly_plan {edit : Edit} (he : edit.Askable P m) : FailsOnly P (m.plan edit) := by
  obtain ⟨hi, hid, htree⟩ := he
  -- Each edit asks for its handles, its ids and its subtree, and nothing else.
  cases edit
  all_goals
    simp only [Edit.handles, Edit.ids, Edit.incoming, List.forall_mem_cons, List.not_mem_nil,
      false_implies, implies_true, and_true] at hi hid htree
  case addPartition => exact failsOnly_planAddPartition hm htree
  case deletePartition => exact failsOnly_planDeletePartition hm hid
  case changeClassifier => exact failsOnly_planChangeClassifier hm hid hi
  case addProperty => exact failsOnly_planAddProperty hm hid hi
  case deleteProperty => exact failsOnly_planDeleteProperty hm hid hi
  case changeProperty => exact failsOnly_planChangeProperty hm hid hi
  case setProperty => exact failsOnly_planSetProperty hm hid hi
  case addChild => exact failsOnly_planAddChild hm hi hid htree
  case deleteChild => exact failsOnly_planDeleteChild hm hi hid.1 hid.2
  case replaceChild => exact failsOnly_planReplaceChild hm hi hid.1 hid.2 htree
  case moveChild => exact failsOnly_planMoveChild hm hi hid.1 hid.2
  case moveAndReplaceChild =>
    exact failsOnly_planMoveAndReplaceChild hm hi hid.1 hid.2.1 hid.2.2
  case addAnnotation => exact failsOnly_planAddAnnotation hm hid htree
  case deleteAnnotation => exact failsOnly_planDeleteAnnotation hm hid.1 hid.2
  case replaceAnnotation => exact failsOnly_planReplaceAnnotation hm hid.1 hid.2 htree
  case moveAnnotation => exact failsOnly_planMoveAnnotation hm hid.1 hid.2
  case moveAndReplaceAnnotation =>
    exact failsOnly_planMoveAndReplaceAnnotation hm hid.1 hid.2.1 hid.2.2
  case addEntry =>
    exact failsOnly_planAddEntry hm hi hid.1 fun x hx => hid.2 x (Option.mem_toList.2 hx)
  case deleteEntry => exact failsOnly_planDeleteEntry hm hi hid
  case changeEntry =>
    exact failsOnly_planChangeEntry hm hi hid.1 fun x hx => hid.2 x (Option.mem_toList.2 hx)
  case moveEntry => exact failsOnly_planMoveEntry hm hi.1 hid.1 hi.2 hid.2
  case moveAndReplaceEntry => exact failsOnly_planMoveAndReplaceEntry hm hi.1 hid.1 hi.2 hid.2
  case addResolveInfo => exact failsOnly_planAddResolveInfo hm hi hid
  case deleteResolveInfo => exact failsOnly_planDeleteResolveInfo hm hi hid
  case changeResolveInfo => exact failsOnly_planChangeResolveInfo hm hi hid
  case addTarget => exact failsOnly_planAddTarget hm hi hid.1 hid.2
  case deleteTarget => exact failsOnly_planDeleteTarget hm hi hid
  case changeTarget => exact failsOnly_planChangeTarget hm hi hid.1 hid.2
  case setTarget => exact failsOnly_planSetTarget hm hi hid.1 hid.2

end Model

end DeltaForest
