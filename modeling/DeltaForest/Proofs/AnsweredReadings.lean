import DeltaForest.Proofs.AnsweredPlans
import DeltaForest.Proofs.Subjects

/-!
# What messages are answered

Messages hold pointers, and pointers are looked up in the table of elements: whatever a message
says, understanding it looks at no handle that has not been found there. So what a message says is
either refused or understood as an edit that names issued handles only, on the nodes that come with
it as well. It names no more nodes than the message does (`Command.nodeIds`, `Event.nodeIds`) and
the chunk in it refers to (`Chunk.targets`). There is one exception: a command may leave out where
a child or an annotation is; then the node above is named, which is there.

If the nodes that a message names may be asked for, then so may all that the edit names
(`Command.answers_toEdit`, `Event.answers_toEdit`). Together with `Model.failsOnly_plan` this tells
how a part of a message can fail (`Command.failsOnly_toChange`, `Event.failsOnly_toChange`).
-/

namespace DeltaForest

open Protocol

variable {P : Fault → Prop}

/-! ## Pointers -/

namespace TypeRegistry

variable {r : TypeRegistry} {p : Pointer} {kind : ElementKind}

/-- An element that is in the table has the handle under which it is found. -/
theorem Lawful.issued_handle (hl : r.Lawful) {el : Element} {h : Handle}
    (hel : r.element? h = some el) : r.Issued el.handle :=
  (hl.handle_of_element? hel).symm ▸ issued_of_element? hel

variable (hp : AllowsPlain P) (hl : r.Lawful)

include hp hl

/-- A classifier is found under a handle that has been issued. -/
theorem answers_classifier : Answers P (fun info => r.Issued info.handle) (r.classifier p) := by
  rw [classifier]
  split
  · exact .error (hp _ trivial)
  · split
    · next hinfo => exact .ok (hl.issued_handle (classifier?_eq_some.1 hinfo))
    · exact .error (hp _ trivial)

/-- A feature is found under a handle that has been issued. -/
theorem answers_feature : Answers P (fun info => r.Issued info.handle) (r.feature kind p) := by
  rw [feature]
  split
  · exact .error (hp _ trivial)
  · split
    · next hinfo => exact .ok (hl.issued_handle (filter_feature?_eq_some.1 hinfo).1)
    · exact .error (hp _ trivial)

end TypeRegistry

/-- A text that is no value of the type is a plain fault. -/
theorem Value.failsOnly_read (hp : AllowsPlain P) {p : Pointer} {type : DataType} {s : String} :
    FailsOnly P (Value.read p type s) := by
  rw [read]
  split
  · exact .ok _
  · exact hp.error trivial

/-! ## Chunks -/

/-- What the nodes of a chunk refer to. -/
def Chunk.targets (chunk : Chunk) : List NodeId :=
  chunk.items.flatMap fun item => item.references.flatMap fun r => r.entries.filterMap (·.target)

/-- A map has a key more once something has been put there. -/
theorem mem_insert_iff {α : Type} {stored : FeatureMap α} {h k : Handle} {a : α} :
    k ∈ stored.insert h a ↔ k = h ∨ k ∈ stored := by
  rw [Std.ExtTreeMap.mem_insert, Std.compare_eq_iff_eq, eq_comm]

namespace Node

variable {m : Model} {n n' : Node} {h : Handle}

/-- A node to which nothing has come but what may be asked for. -/
theorem Askable.put (hn : n.Askable P m) (hi : m.types.Issued h)
    (hput : ∀ k ∈ n'.handles, k = h ∨ k ∈ n.handles)
    (htargets : ∀ x ∈ n'.targets, x ∈ n.targets ∨ m.nodes.Askable P x) : n'.Askable P m where
  handles k hk := by
    rcases hput k hk with rfl | hk
    · exact .inl hi
    · exact hn.handles k hk
  targets x hx := (htargets x hx).elim (hn.targets x) fun h => h

/-- A node without anything on it has the handle of its classifier only. -/
theorem askable_bare {id : NodeId} (hi : m.types.Issued h) : (bare id h).Askable P m where
  handles k hk := by
    rcases mem_handles.1 hk with rfl | hp | hc | hr
    · exact .inl hi
    · exact absurd hp Std.ExtTreeMap.not_mem_empty
    · exact absurd hc Std.ExtTreeMap.not_mem_empty
    · exact absurd hr Std.ExtTreeMap.not_mem_empty
  targets x hx := by
    obtain ⟨r, e, he, -⟩ := (mem_targets _).1 hx
    simp [entries, bare] at he

end Node

/-- Putting nodes together comes to plain faults only. -/
theorem Subtree.failsOnly_ofList (hp : AllowsPlain P) {nodes : List Node} :
    FailsOnly P (ofList nodes) := by
  rw [ofList]
  dsimp only
  split
  · exact hp.error trivial
  split
  · exact hp.error trivial
  split
  · exact hp.error trivial
  · rw [below]
    refine .ite (fun _ => hp.error trivial) fun _ => ?_
    split
    · exact .ok _
    · exact hp.error trivial
  · exact hp.error trivial

/-- The nodes of a subtree are those that have been put together. -/
theorem Subtree.answers_ofList (hp : AllowsPlain P) {m : Model} {nodes : List Node}
    (hnodes : ∀ n ∈ nodes, n.Askable P m) :
    Answers P (fun tree => ∀ n ∈ tree.nodes, n.Askable P m) (ofList nodes) := by
  refine ⟨failsOnly_ofList hp, fun tree h n hn => ?_⟩
  obtain ⟨n', hn', heq⟩ := exists_of_mem_ofList h hn
  rw [heq]
  exact ⟨(hnodes n' hn').handles, (hnodes n' hn').targets⟩

namespace Chunk

variable {m : Model} {kind : ElementKind} {n : Node} {p : Pointer}

section Reading

variable (hp : AllowsPlain P) (hl : m.types.Lawful)

include hp hl

theorem answers_applicable :
    Answers P (fun info => m.types.Issued info.handle) (applicable m.types kind n p) :=
  (TypeRegistry.answers_feature hp hl).bind fun _ hi =>
    .ite (fun _ => .ok hi) fun _ => .error (hp _ trivial)

/-- A property that comes on a node is one that has been found. -/
theorem answers_addProperty {property : Property} (hn : n.Askable P m) :
    Answers P (Node.Askable P m) (addProperty m.types n property) := by
  refine (answers_applicable hp hl).bind fun info hi => ?_
  split
  · refine (Answers.of_failsOnly (Value.failsOnly_read hp)).bind fun v _ => .ok ?_
    refine hn.put hi (fun k hk => ?_) fun x hx => .inl hx
    rw [Node.mem_handles, mem_insert_iff] at hk
    rw [Node.mem_handles]
    grind
  · exact .ok hn

/-- A containment that comes on a node is one that has been found. -/
theorem answers_addContainment {c : Containment} (hn : n.Askable P m) :
    Answers P (Node.Askable P m) (addContainment m.types n c) := by
  refine (answers_applicable hp hl).bind fun info hi => .ok ?_
  split
  · exact hn
  · refine hn.put hi (fun k hk => ?_) fun x hx => .inl hx
    rw [Node.withChildren, Node.mem_handles, mem_insert_iff] at hk
    rw [Node.mem_handles]
    grind

/-- A reference that comes on a node is one that has been found, and its targets are listed. -/
theorem answers_addReference {r : Reference} (hn : n.Askable P m)
    (hr : ∀ x ∈ r.entries.filterMap (·.target), m.nodes.Askable P x) :
    Answers P (Node.Askable P m) (addReference m.types n r) := by
  refine (answers_applicable hp hl).bind fun info hi => ?_
  refine .ite (fun _ => .error (hp _ trivial)) fun _ => .ok ?_
  split
  · exact hn
  · refine hn.put hi (fun k hk => ?_) fun x hx => ?_
    · rw [Node.withEntries, Node.mem_handles, mem_insert_iff] at hk
      rw [Node.mem_handles]
      grind
    · -- The entries of the reference are the new ones, those of the others are as they were.
      obtain ⟨f, e, he, hx⟩ := (Node.mem_targets _).1 hx
      rw [Node.entries_withEntries] at he
      split at he
      · exact .inr (hr x (List.mem_filterMap.2 ⟨e, he, hx⟩))
      · exact .inl ((Node.mem_targets _).2 ⟨f, e, he, hx⟩)

/-- All handles on a node that has travelled have been found by pointers, and it refers to what is
    listed. -/
theorem answers_toNode {item : Item}
    (hitem : ∀ x ∈ item.references.flatMap fun r => r.entries.filterMap (·.target),
      m.nodes.Askable P x) :
    Answers P (Node.Askable P m) (item.toNode m.types) := by
  refine (TypeRegistry.answers_classifier hp hl).bind fun info hi => ?_
  refine .bind (.foldlM (fun _ _ _ => answers_addProperty hp hl) (Node.askable_bare hi))
    fun n₁ h₁ => ?_
  refine .bind (.foldlM (fun _ _ _ => answers_addContainment hp hl) h₁) fun n₂ h₂ => ?_
  refine .bind (.foldlM (fun n r hr hn => answers_addReference hp hl hn fun x hx => ?_) h₂)
    fun n₃ h₃ => .ok ⟨h₃.handles, h₃.targets⟩
  exact hitem x (List.mem_flatMap.2 ⟨r, hr, hx⟩)

/-- A chunk can be read, or is refused as is allowed, if what it refers to may be asked for. -/
theorem answers_toSubtree {chunk : Chunk} (hchunk : ∀ x ∈ chunk.targets, m.nodes.Askable P x) :
    Answers P (fun tree => ∀ n ∈ tree.nodes, n.Askable P m)
      (chunk.toSubtree m.types m.nodes) := by
  refine .ite (fun _ => .error (hp _ trivial)) fun _ => ?_
  refine .bind (.mapM fun item hitem => answers_toNode hp hl fun x hx => ?_) fun nodes hnodes => ?_
  · exact hchunk x (List.mem_flatMap.2 ⟨item, hitem, hx⟩)
  split
  · exact .error (hp _ trivial)
  · dsimp only
    split
    · next x hfound =>
      -- Who is missed is referred to and not there.
      obtain ⟨n, hn, hx⟩ := List.mem_flatMap.1 (List.mem_of_find?_eq_some hfound)
      refine .error (((hnodes n hn).targets x hx).resolve_left fun hmem => ?_)
      have habsent := List.find?_some hfound
      simp [Std.ExtTreeMap.mem_iff_contains.1 hmem] at habsent
    · exact Subtree.answers_ofList hp hnodes

end Reading

end Chunk

/-! ## What messages name -/

/-- An entry is let through as it is, or refused for saying nothing. -/
theorem Entry.answers_checked (hp : AllowsPlain P) {e : Entry} :
    Answers P (fun e' => e' = e) e.checked :=
  .bind (.of_failsOnly (e.failsOnly_check hp)) fun _ _ => .ok rfl

/-- A change of another kind than the message names is a plain fault. -/
theorem Change.failsOnly_checkKind (hp : AllowsPlain P) {c : Change} {named : String} :
    FailsOnly P (c.checkKind named) :=
  .ite (fun _ => .ok _) fun _ => hp.error trivial

namespace Model

variable {m : Model} (hm : m.Allows P) {p : Pointer} {kind : ElementKind} {child : NodeId}

include hm

/-- Where a child is, the node above is there and has something for the containment. -/
theorem answers_locateChild (hchild : m.nodes.Askable P child) :
    Answers P (fun place => m.types.Askable P place.feature ∧ place.owner ∈ m.nodes)
      (m.locateChild child) := by
  refine ⟨failsOnly_locateChild hm hchild, fun place h => ?_⟩
  obtain ⟨n, hn, h⟩ := bind_eq_ok.1 h
  split at h
  · cases h
  · obtain ⟨above, habove, h⟩ := bind_eq_ok.1 h
    have hlookup := node_eq_ok.1 habove
    split at h
    · next c i hfound =>
      cases h
      -- The containment is one for which the node above has something.
      obtain ⟨⟨k, ids⟩, hmem, hi⟩ := List.exists_of_findSome?_eq_some hfound
      obtain ⟨j, -, hpair⟩ := Option.map_eq_some_iff.1 hi
      obtain ⟨rfl, rfl⟩ := Prod.mk.inj hpair
      have hk := mem_of_lookup (Std.ExtTreeMap.mem_toList_iff_getElem?_eq_some.1 hmem)
      refine ⟨hm.handles _ above hlookup k ?_, mem_of_lookup hlookup⟩
      exact Node.mem_handles.2 (.inr (.inr (.inl hk)))
    · cases h

/-- Where an annotation is, the node above is there. -/
theorem answers_locateAnnotation (hchild : m.nodes.Askable P child) :
    Answers P (fun place => place.owner ∈ m.nodes) (m.locateAnnotation child) := by
  have hlocate := failsOnly_locateAnnotation hm hchild
  refine ⟨hlocate, fun place h => ?_⟩
  obtain ⟨n, hn, h⟩ := bind_eq_ok.1 h
  split at h
  · cases h
  · obtain ⟨above, habove, h⟩ := bind_eq_ok.1 h
    split at h
    · cases h
      exact mem_of_lookup (node_eq_ok.1 habove)
    · cases h

variable (hl : m.types.Lawful)

include hl

theorem answers_resolveClassifier : Answers P m.types.Issued (m.resolveClassifier p) :=
  (TypeRegistry.answers_classifier hm.plain hl).bind fun _ hi => .ok hi

theorem answers_resolveFeature : Answers P m.types.Issued (m.resolveFeature kind p) :=
  (TypeRegistry.answers_feature hm.plain hl).bind fun _ hi => .ok hi

/-- A value comes with the handle of its property. -/
theorem answers_resolveValue {s : String} :
    Answers P (fun found => m.types.Issued found.1) (m.resolveValue p s) := by
  refine (TypeRegistry.answers_feature hm.plain hl).bind fun info hi => ?_
  split
  · exact .bind (.of_failsOnly (Value.failsOnly_read hm.plain)) fun _ _ => .ok hi
  · exact .error (hm.plain _ trivial)

/-- A place is renamed to one of the same node. -/
theorem answers_resolvePlace (place : Place Pointer) :
    Answers P (fun found => ∃ f, m.types.Issued f ∧ found = ⟨place.owner, f, place.index⟩)
      (place.rename (m.resolveFeature kind)) :=
  .bind (answers_resolveFeature hm hl) fun f hi => .ok ⟨f, hi, rfl⟩

/-- Both ends of a move are renamed. -/
theorem answers_resolveShift (shift : Shift Pointer) :
    Answers P (fun found => (m.types.Issued found.target.feature ∧
        found.target.owner = shift.target.owner) ∧ m.types.Issued found.source.feature ∧
        found.source.owner = shift.source.owner)
      (shift.rename (m.resolveFeature kind)) := by
  cases shift with
  | elsewhere target source =>
    refine .bind (answers_resolvePlace hm hl target) fun _ ⟨f, hf, htarget⟩ => ?_
    refine .bind (answers_resolvePlace hm hl source) fun _ ⟨g, hg, hsource⟩ => ?_
    subst htarget hsource
    exact .ok ⟨⟨hf, rfl⟩, hg, rfl⟩
  | sameOwner owner newFeature newIndex oldFeature oldIndex =>
    refine .bind (answers_resolveFeature hm hl) fun _ hnew => ?_
    exact .bind (answers_resolveFeature hm hl) fun _ hold => .ok ⟨⟨hnew, rfl⟩, hold, rfl⟩
  | sameList owner feature newIndex oldIndex =>
    exact .bind (answers_resolveFeature hm hl) fun _ hi => .ok ⟨⟨hi, rfl⟩, hi, rfl⟩

/-- The nodes in a chunk come with handles that have been found. -/
theorem answers_resolveChunk {chunk : Chunk}
    (hchunk : ∀ x ∈ chunk.targets, m.nodes.Askable P x) :
    Answers P (fun tree => ∀ n ∈ tree.nodes, n.Askable P m) (m.resolveChunk chunk) :=
  Chunk.answers_toSubtree hm.plain hl hchunk

end Model

namespace Protocol

/-! ## Commands -/

/-- The node that is named for where a child is to go. -/
def Destination.nodeIds : Destination → List NodeId
  | elsewhere place => [place.owner]
  | sameOwner .. | sameList _ => []

/-- The node that is named for where an annotation is to go. -/
def AnnotationDestination.nodeIds : AnnotationDestination → List NodeId
  | elsewhere place => [place.owner]
  | sameOwner _ => []

namespace Command

/-- The ids of nodes in a command, apart from those in a chunk. -/
def nodeIds : Command → List NodeId
  | addPartition _ => []
  | deletePartition old => [old]
  | changeClassifier node _ | addProperty node _ _ | deleteProperty node _
  | changeProperty node _ _ => [node]
  | addChild place _ => [place.owner]
  | deleteChild place old | replaceChild place old _ => [place.owner, old]
  | moveChild target moved => moved :: target.nodeIds
  | moveAndReplaceChild target moved old => moved :: old :: target.nodeIds
  | addAnnotation place _ => [place.owner]
  | deleteAnnotation place old | replaceAnnotation place old _ => [place.owner, old]
  | moveAnnotation target moved => moved :: target.nodeIds
  | moveAndReplaceAnnotation target moved old => moved :: old :: target.nodeIds
  | addEntry place new | changeEntry place new => place.owner :: new.target.toList
  | deleteEntry place | addResolveInfo place _ | deleteResolveInfo place
  | changeResolveInfo place _ | deleteTarget place => [place.owner]
  | moveEntry shift | moveAndReplaceEntry shift => [shift.target.owner, shift.source.owner]
  | addTarget place new | changeTarget place new => [place.owner, new]

/-- The chunk in a command, if there is one. -/
def chunks : Command → List Chunk
  | addPartition new | addChild _ new | replaceChild _ _ new | addAnnotation _ new
  | replaceAnnotation _ _ new => [new]
  | _ => []

end Command

namespace Event

/-- The ids of nodes in an event, apart from those in a chunk and those that only tell of the state
    before it. -/
def nodeIds : Event → List NodeId
  | partitionAdded _ => []
  | partitionDeleted old => [old.root]
  | classifierChanged node _ _ | propertyAdded node _ _ | propertyDeleted node _ _
  | propertyChanged node _ _ _ => [node]
  | childAdded place _ => [place.owner]
  | childDeleted place old | childReplaced place _ old => [place.owner, old.root]
  | childMoved shift moved => [shift.target.owner, moved]
  | childMovedAndReplaced shift moved old => [shift.target.owner, moved, old.root]
  | annotationAdded place _ => [place.owner]
  | annotationDeleted place old | annotationReplaced place _ old => [place.owner, old.root]
  | annotationMoved shift moved => [shift.target.owner, moved]
  | annotationMovedAndReplaced shift moved old => [shift.target.owner, moved, old.root]
  | entryAdded place new | entryChanged place new _ => place.owner :: new.target.toList
  | entryDeleted place _ | resolveInfoAdded place _ _ | resolveInfoDeleted place _ _
  | resolveInfoChanged place _ _ _ | targetDeleted place _ _ => [place.owner]
  | entryMoved shift _ | entryMovedAndReplaced shift _ _ =>
    [shift.target.owner, shift.source.owner]
  | targetAdded place new _ | targetChanged place new _ _ => [place.owner, new]

/-- The chunk in an event, if there is one. -/
def chunks : Event → List Chunk
  | partitionAdded new | childAdded _ new | childReplaced _ new _ | annotationAdded _ new
  | annotationReplaced _ new _ => [new]
  | _ => []

end Event

variable {m : Model}

/-- An edit that names two places of the nodes that a shift names. -/
theorem askable_of_shift {e : Edit} {shift : Shift Pointer} {found : Shift Handle}
    (hfound : (m.types.Issued found.target.feature ∧ found.target.owner = shift.target.owner) ∧
      m.types.Issued found.source.feature ∧ found.source.owner = shift.source.owner)
    (hids : ∀ id ∈ [shift.target.owner, shift.source.owner], m.nodes.Askable P id)
    (he : e.handles = [found.target.feature, found.source.feature])
    (heids : e.ids = [found.target.owner, found.source.owner]) (hnone : e.incoming = []) :
    e.Askable P m := by
  obtain ⟨⟨htarget, hto⟩, hsource, hso⟩ := hfound
  refine ⟨?_, ?_, ?_⟩
  · rw [he]
    exact List.forall_mem_cons.2 ⟨.inl htarget, List.forall_mem_singleton.2 (.inl hsource)⟩
  · rwa [heids, hto, hso]
  · rw [hnone]
    exact List.forall_mem_nil _

variable (hm : m.Allows P) (hl : m.types.Lawful)

include hm hl

namespace Command

/-- Where a child is to go is told by a place, or it is where the child is already. -/
theorem answers_destination {target : Destination} {moved : NodeId}
    (hmoved : m.nodes.Askable P moved) (htarget : ∀ id ∈ target.nodeIds, m.nodes.Askable P id) :
    Answers P (fun place => m.types.Askable P place.feature ∧ m.nodes.Askable P place.owner)
      (toEdit.destination m target moved) := by
  cases target with
  | elsewhere place =>
    refine (Model.answers_resolvePlace hm hl place).imp ?_
    rintro _ ⟨f, hf, rfl⟩
    exact ⟨.inl hf, htarget place.owner List.mem_cons_self⟩
  | sameOwner feature index =>
    refine .bind (Model.answers_locateChild hm hmoved) fun source hsource => ?_
    exact .bind (Model.answers_resolveFeature hm hl) fun _ hi => .ok ⟨.inl hi, .inl hsource.2⟩
  | sameList index =>
    refine .bind (Model.answers_locateChild hm hmoved) fun source hsource => ?_
    exact .ok ⟨hsource.1, .inl hsource.2⟩

omit hl in
/-- Where an annotation is to go is told by a place, or it is where the annotation is already. -/
theorem answers_annotationDestination {target : AnnotationDestination} {moved : NodeId}
    (hmoved : m.nodes.Askable P moved) (htarget : ∀ id ∈ target.nodeIds, m.nodes.Askable P id) :
    Answers P (fun place => m.nodes.Askable P place.owner)
      (toEdit.annotationDestination m target moved) := by
  cases target with
  | elsewhere place => exact .ok (htarget place.owner List.mem_cons_self)
  | sameOwner index =>
    exact .bind (Model.answers_locateAnnotation hm hmoved) fun source hsource => .ok (.inl hsource)

/-- If the moved child may be asked for, then so may the place where it is to go. -/
theorem answers_toEdit_child {c : Command} (hs : c.subject = .child)
    (hids : ∀ id ∈ c.nodeIds, m.nodes.Askable P id)
    (hchunks : ∀ chunk ∈ c.chunks, ∀ x ∈ chunk.targets, m.nodes.Askable P x) :
    Answers P (Edit.Askable P m) (c.toEdit m) := by
  cases c <;> cases hs
  case addChild place new | replaceChild place _ new =>
    have hchunk := hchunks new List.mem_cons_self
    refine .bind (Model.answers_resolvePlace hm hl place) fun _ ⟨f, hi, hplace⟩ => ?_
    subst hplace
    refine .bind (Model.answers_resolveChunk hm hl hchunk) fun _ htree => .ok ?_
    exact ⟨List.forall_mem_singleton.2 (.inl hi), hids, List.forall_mem_singleton.2 htree⟩
  case deleteChild place _ =>
    refine .bind (Model.answers_resolvePlace hm hl place) fun _ ⟨f, hi, hplace⟩ => .ok ?_
    subst hplace
    exact ⟨List.forall_mem_singleton.2 (.inl hi), hids, List.forall_mem_nil _⟩
  case moveChild =>
    obtain ⟨hmoved, htarget⟩ := List.forall_mem_cons.1 hids
    refine .bind (answers_destination hm hl hmoved htarget) fun _ ⟨hi, ho⟩ => .ok ?_
    refine ⟨List.forall_mem_singleton.2 hi, ?_, List.forall_mem_nil _⟩
    exact List.forall_mem_cons.2 ⟨ho, List.forall_mem_singleton.2 hmoved⟩
  case moveAndReplaceChild =>
    obtain ⟨hmoved, hrest⟩ := List.forall_mem_cons.1 hids
    obtain ⟨hold, htarget⟩ := List.forall_mem_cons.1 hrest
    refine .bind (answers_destination hm hl hmoved htarget) fun _ ⟨hi, ho⟩ => .ok ?_
    refine ⟨List.forall_mem_singleton.2 hi, ?_, List.forall_mem_nil _⟩
    exact List.forall_mem_cons.2 ⟨ho, List.forall_mem_cons.2 ⟨hmoved,
      List.forall_mem_singleton.2 hold⟩⟩

/-- If the moved annotation may be asked for, then so may the node where it is to go. -/
theorem answers_toEdit_annotation {c : Command} (hs : c.subject = Subject.annotation)
    (hids : ∀ id ∈ c.nodeIds, m.nodes.Askable P id)
    (hchunks : ∀ chunk ∈ c.chunks, ∀ x ∈ chunk.targets, m.nodes.Askable P x) :
    Answers P (Edit.Askable P m) (c.toEdit m) := by
  cases c <;> cases hs
  case addAnnotation _ new | replaceAnnotation _ _ new =>
    have hchunk := hchunks new List.mem_cons_self
    refine .bind (Model.answers_resolveChunk hm hl hchunk) fun _ htree => ?_
    exact .ok ⟨List.forall_mem_nil _, hids, List.forall_mem_singleton.2 htree⟩
  case deleteAnnotation => exact .ok ⟨List.forall_mem_nil _, hids, List.forall_mem_nil _⟩
  case moveAnnotation =>
    obtain ⟨hmoved, htarget⟩ := List.forall_mem_cons.1 hids
    refine .bind (answers_annotationDestination hm hmoved htarget) fun _ ho => .ok ?_
    refine ⟨List.forall_mem_nil _, ?_, List.forall_mem_nil _⟩
    exact List.forall_mem_cons.2 ⟨ho, List.forall_mem_singleton.2 hmoved⟩
  case moveAndReplaceAnnotation =>
    obtain ⟨hmoved, hrest⟩ := List.forall_mem_cons.1 hids
    obtain ⟨hold, htarget⟩ := List.forall_mem_cons.1 hrest
    refine .bind (answers_annotationDestination hm hmoved htarget) fun _ ho => .ok ?_
    refine ⟨List.forall_mem_nil _, ?_, List.forall_mem_nil _⟩
    exact List.forall_mem_cons.2 ⟨ho, List.forall_mem_cons.2 ⟨hmoved,
      List.forall_mem_singleton.2 hold⟩⟩

/-- If what a command names may be asked for, then so may what the edit names. -/
theorem answers_toEdit (c : Command) (hids : ∀ id ∈ c.nodeIds, m.nodes.Askable P id)
    (hchunks : ∀ chunk ∈ c.chunks, ∀ x ∈ chunk.targets, m.nodes.Askable P x) :
    Answers P (Edit.Askable P m) (c.toEdit m) := by
  -- The cases go by what has to be looked up: nothing, a chunk, a classifier, a value, a place.
  cases c
  case deletePartition =>
    exact .ok ⟨List.forall_mem_nil _, hids, List.forall_mem_nil _⟩
  case addPartition new =>
    have hchunk := hchunks new List.mem_cons_self
    refine .bind (Model.answers_resolveChunk hm hl hchunk) fun _ htree => ?_
    exact .ok ⟨List.forall_mem_nil _, hids, List.forall_mem_singleton.2 htree⟩
  case changeClassifier =>
    refine .bind (Model.answers_resolveClassifier hm hl) fun _ hi => ?_
    exact .ok ⟨List.forall_mem_singleton.2 (.inl hi), hids, List.forall_mem_nil _⟩
  case addProperty | changeProperty =>
    refine .bind (Model.answers_resolveValue hm hl) fun _ hi => ?_
    exact .ok ⟨List.forall_mem_singleton.2 (.inl hi), hids, List.forall_mem_nil _⟩
  case deleteProperty =>
    refine .bind (Model.answers_resolveFeature hm hl) fun _ hi => ?_
    exact .ok ⟨List.forall_mem_singleton.2 (.inl hi), hids, List.forall_mem_nil _⟩
  case addChild | deleteChild | replaceChild | moveChild | moveAndReplaceChild =>
    exact answers_toEdit_child hm hl rfl hids hchunks
  case addAnnotation | deleteAnnotation | replaceAnnotation | moveAnnotation |
      moveAndReplaceAnnotation =>
    exact answers_toEdit_annotation hm hl rfl hids hchunks
  case addEntry place _ | changeEntry place _ =>
    refine .bind (Model.answers_resolvePlace hm hl place) fun _ ⟨f, hi, hplace⟩ => ?_
    subst hplace
    refine .bind (Entry.answers_checked hm.plain) fun e he => .ok ?_
    subst he
    exact ⟨List.forall_mem_singleton.2 (.inl hi), hids, List.forall_mem_nil _⟩
  case moveEntry shift | moveAndReplaceEntry shift =>
    exact .bind (Model.answers_resolveShift hm hl shift) fun _ hfound =>
      .ok (askable_of_shift hfound hids rfl rfl rfl)
  all_goals
    refine .bind (Model.answers_resolvePlace hm hl _) fun _ ⟨f, hi, hplace⟩ => .ok ?_
    subst hplace
    exact ⟨List.forall_mem_singleton.2 (.inl hi), hids, List.forall_mem_nil _⟩

/-- How a command can fail, if the nodes that it names may be asked for. -/
theorem failsOnly_toChange {c : Command} (hids : ∀ id ∈ c.nodeIds, m.nodes.Askable P id)
    (hchunks : ∀ chunk ∈ c.chunks, ∀ x ∈ chunk.targets, m.nodes.Askable P x) :
    FailsOnly P (c.toChange m) := by
  have hread := answers_toEdit hm hl c hids hchunks
  refine .bind hread.1 fun e he => ?_
  refine .bind (Model.failsOnly_plan hm (hread.2 e he)) fun _ _ => ?_
  exact Change.failsOnly_checkKind hm.plain

end Command

/-! ## Events -/

namespace Event

/-- If what an event names may be asked for, then so may what the edit names. -/
theorem answers_toEdit (event : Event) (hids : ∀ id ∈ event.nodeIds, m.nodes.Askable P id)
    (hchunks : ∀ chunk ∈ event.chunks, ∀ x ∈ chunk.targets, m.nodes.Askable P x) :
    Answers P (Edit.Askable P m) (event.toEdit m) := by
  -- Moved children are told of with their places, which a command may leave out.
  cases event
  case partitionDeleted | annotationDeleted | annotationMoved | annotationMovedAndReplaced =>
    exact .ok ⟨List.forall_mem_nil _, hids, List.forall_mem_nil _⟩
  case partitionAdded new | annotationAdded _ new | annotationReplaced _ new _ =>
    have hchunk := hchunks new List.mem_cons_self
    refine .bind (Model.answers_resolveChunk hm hl hchunk) fun _ htree => ?_
    exact .ok ⟨List.forall_mem_nil _, hids, List.forall_mem_singleton.2 htree⟩
  case classifierChanged =>
    refine .bind (Model.answers_resolveClassifier hm hl) fun _ hi => ?_
    exact .ok ⟨List.forall_mem_singleton.2 (.inl hi), hids, List.forall_mem_nil _⟩
  case propertyAdded | propertyChanged =>
    refine .bind (Model.answers_resolveValue hm hl) fun _ hi => ?_
    exact .ok ⟨List.forall_mem_singleton.2 (.inl hi), hids, List.forall_mem_nil _⟩
  case propertyDeleted =>
    refine .bind (Model.answers_resolveFeature hm hl) fun _ hi => ?_
    exact .ok ⟨List.forall_mem_singleton.2 (.inl hi), hids, List.forall_mem_nil _⟩
  case childAdded place new | childReplaced place new _ =>
    have hchunk := hchunks new List.mem_cons_self
    refine .bind (Model.answers_resolvePlace hm hl place) fun _ ⟨f, hi, hplace⟩ => ?_
    subst hplace
    refine .bind (Model.answers_resolveChunk hm hl hchunk) fun _ htree => .ok ?_
    exact ⟨List.forall_mem_singleton.2 (.inl hi), hids, List.forall_mem_singleton.2 htree⟩
  case entryAdded place _ | entryChanged place _ _ =>
    refine .bind (Model.answers_resolvePlace hm hl place) fun _ ⟨f, hi, hplace⟩ => ?_
    subst hplace
    refine .bind (Entry.answers_checked hm.plain) fun e he => .ok ?_
    subst he
    exact ⟨List.forall_mem_singleton.2 (.inl hi), hids, List.forall_mem_nil _⟩
  case entryMoved shift _ | entryMovedAndReplaced shift _ _ =>
    exact .bind (Model.answers_resolveShift hm hl shift) fun _ hfound =>
      .ok (askable_of_shift hfound hids rfl rfl rfl)
  all_goals
    refine .bind (Model.answers_resolvePlace hm hl _) fun _ ⟨f, hi, hplace⟩ => .ok ?_
    subst hplace
    exact ⟨List.forall_mem_singleton.2 (.inl hi), hids, List.forall_mem_nil _⟩

/-- How an event can fail, if the nodes that it names may be asked for. -/
theorem failsOnly_toChange {event : Event} (hids : ∀ id ∈ event.nodeIds, m.nodes.Askable P id)
    (hchunks : ∀ chunk ∈ event.chunks, ∀ x ∈ chunk.targets, m.nodes.Askable P x) :
    FailsOnly P (event.toChange m) := by
  have hread := answers_toEdit hm hl event hids hchunks
  refine .bind hread.1 fun e he => ?_
  refine .bind (Model.failsOnly_plan hm (hread.2 e he)) fun _ _ => ?_
  exact Change.failsOnly_checkKind hm.plain

end Event

end Protocol

end DeltaForest
