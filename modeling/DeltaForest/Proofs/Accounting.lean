import DeltaForest.Proofs.Filled
import DeltaForest.Proofs.Frame
import DeltaForest.Proofs.Integrity
import DeltaForest.Proofs.Preorder
import DeltaForest.Proofs.Works

/-!
# Nodes that come and nodes that go

A change says which subtrees come and which subtree goes. The nodes of a forest after a change that
is accepted are those before it without the ones that go and with the ones that come; what is
recorded of the subtree that goes is the node that the change names with all its descendants, as
they stood, in preorder (`NodeTable.Records`); the event that tells of the change lists the ids of
just these; the list of partitions gets one more at its end, loses one, or stays; and whatever else
there is stays as it was (`Site.Reachable.accounted`).
-/

namespace DeltaForest

open Protocol

/-! ## What a change says of it -/

namespace Change

/-- The subtrees that go with a change. -/
def outgoing : Change → List Subtree
  | partitionDeleted tree => [tree]
  | childDeleted _ old | childReplaced _ _ old | childMovedAndReplaced _ _ old => [old]
  | annotationDeleted _ old | annotationReplaced _ _ old | annotationMovedAndReplaced _ _ old =>
    [old]
  | _ => []

/-- The place from which a subtree goes, if it is at one. -/
def vacated? : Change → Option (Place Seat)
  | childDeleted place _ | childReplaced place .. => some place.seat
  | childMovedAndReplaced shift .. => some shift.target.seat
  | annotationDeleted place _ | annotationReplaced place .. => some place.seat
  | annotationMovedAndReplaced shift .. => some shift.target.seat
  | _ => none

/-- The ids of the nodes that come. -/
def came (c : Change) : List NodeId := c.incoming.flatMap fun tree => tree.nodes.map Node.id

/-- The ids of the nodes that go. -/
def gone (c : Change) : List NodeId := c.outgoing.flatMap fun tree => tree.nodes.map Node.id

/-- What a change does to a list of partitions. -/
inductive Relists : Change → List NodeId → List NodeId → Prop
  | added {tree : Subtree} {partitions : List NodeId} :
    Relists (partitionAdded tree) partitions (partitions ++ [tree.root.id])
  | deleted {tree : Subtree} {before behind : List NodeId} :
    Relists (partitionDeleted tree) (before ++ tree.root.id :: behind) (before ++ behind)
  | other {c : Change} {partitions : List NodeId} : c.category ≠ .partition →
    Relists c partitions partitions

end Change

/-- A subtree records a node of a table with all its descendants, as they stand there. -/
structure NodeTable.Records (t : NodeTable) (s : Subtree) : Prop where
  standing : ∀ n ∈ s.nodes, t[n.id]? = some n
  below : ∀ k, k ∈ s.nodes.map Node.id ↔ Above t.above? s.root.id k
  preorder : t.Preorder [s.root.id] (s.nodes.map Node.id)

/-- What an event tells of subtrees that are gone. -/
def Protocol.Event.removals : Event → List Removal
  | partitionDeleted old => [old]
  | childDeleted _ old | childReplaced _ _ old | childMovedAndReplaced _ _ old => [old]
  | annotationDeleted _ old | annotationReplaced _ _ old | annotationMovedAndReplaced _ _ old =>
    [old]
  | _ => []

/-- An event lists the ids that have left a table: root and descendants, each once. -/
structure Protocol.Event.Lists (event : Event) (t t' : NodeTable) : Prop where
  left : ∀ k, k ∈ t ∧ k ∉ t' ↔ ∃ old ∈ event.removals, k = old.root ∨ k ∈ old.descendants
  once : ∀ old ∈ event.removals, (old.root :: old.descendants).Nodup
  single : event.removals.length ≤ 1

/-! ## The subtree that goes -/

theorem NodeTable.records_of_collect {t : NodeTable} {root : NodeId} {s : Subtree}
    (ht : t.Treelike) (hroot : root ∈ t) (h : t.collect root = .ok s) : t.Records s where
  standing n hn := (lookup_of_mem_collect ht.keyed h hn).2
  below k := by
    rw [ids_collect ht.keyed h, id_root_collect ht.keyed h, ht.mem_depthFirst]
  preorder := by
    rw [ids_collect ht.keyed h, id_root_collect ht.keyed h]
    exact ht.preorder_depthFirst hroot

namespace Change

variable {m : Model} {c : Change} {r : Reshaping} {old : Subtree}

/-- What goes has been taken out of the table in which the change is made. -/
theorem leaving_of_outgoing (hc : c.Fits m) (hold : old ∈ c.outgoing) :
    m.leaving old.root.id = .ok old := by
  cases c <;> first | exact absurd hold List.not_mem_nil | obtain rfl := List.mem_singleton.1 hold
  case partitionDeleted | childDeleted | annotationDeleted => exact hc.2
  case childReplaced | annotationReplaced => exact hc.2.2
  case childMovedAndReplaced | annotationMovedAndReplaced => exact hc.2.2.2.2.1

theorem collect_of_outgoing (hc : c.Fits m) (hold : old ∈ c.outgoing) :
    m.nodes.collect old.root.id = .ok old :=
  (Model.leaving_eq_ok.1 (leaving_of_outgoing hc hold)).1

/-- What goes from a place stood there. -/
theorem at?_of_vacated (hc : c.Fits m) {p : Place Seat} (hp : c.vacated? = some p)
    (hold : old ∈ c.outgoing) : m.nodes.at? p = some old.root.id := by
  cases c <;> cases hp <;> obtain rfl := List.mem_singleton.1 hold
  case childDeleted | childReplaced | childMovedAndReplaced => exact Model.at?_of_childAt hc.1
  case annotationDeleted | annotationReplaced | annotationMovedAndReplaced =>
    exact Model.annotationAt_eq_ok.1 hc.1

/-- What goes from no place is a partition. -/
theorem isTop_of_outgoing (hc : c.Fits m) (hp : c.vacated? = none) (hold : old ∈ c.outgoing) :
    m.nodes.IsTop old.root.id := by
  cases c <;> first | cases hp; done | exact absurd hold List.not_mem_nil | skip
  obtain rfl := List.mem_singleton.1 hold
  exact NodeTable.isTop_iff.2 hc.1

theorem root_mem_of_outgoing (ht : m.nodes.Treelike) (hc : c.Fits m) (hold : old ∈ c.outgoing) :
    old.root.id ∈ m.nodes := by
  cases hp : c.vacated? with
  | none => exact (isTop_of_outgoing hc hp hold).1
  | some p => exact (ht.mem_of_above? (ht.above?_of_at? (at?_of_vacated hc hp hold))).1

theorem records_of_outgoing (ht : m.nodes.Treelike) (hc : c.Fits m) (hold : old ∈ c.outgoing) :
    m.nodes.Records old :=
  NodeTable.records_of_collect ht (root_mem_of_outgoing ht hc hold) (collect_of_outgoing hc hold)

theorem length_outgoing_le (c : Change) : c.outgoing.length ≤ 1 := by
  cases c <;> first | exact Nat.le_refl 1 | exact Nat.zero_le 1

theorem length_incoming_le (c : Change) : c.incoming.length ≤ 1 := by
  cases c <;> first | exact Nat.le_refl 1 | exact Nat.zero_le 1

end Change

/-! ## The nodes after a change -/

namespace Reshaping

variable {t : NodeTable} {r : Reshaping} {k : NodeId}

/-- The ids that go with a reshaping. -/
def gone (t : NodeTable) : Reshaping → List NodeId
  | fell root => t.depthFirst root
  | detach _ old | exchange _ _ old | moveAndReplace _ _ _ old => t.depthFirst old
  | _ => []

/-- The nodes after a reshaping are those before without what goes and with what comes. -/
theorem mem_outcome (ht : t.Treelike) (hr : r.Fits t) (htree : ∀ tree ∈ r.incoming, tree.IsTree) :
    k ∈ r.outcome t ↔ (k ∈ t ∧ k ∉ r.gone t) ∨
      k ∈ r.incoming.flatMap fun tree => tree.nodes.map Node.id := by
  have hplanted {t : NodeTable} {tree : Subtree} {above : Option NodeId} (hin : tree ∈ r.incoming) :
      k ∈ t.planted tree above ↔ k ∈ tree.nodes.map Node.id ∨ k ∈ t :=
    NodeTable.mem_planted (htree tree hin).distinct
  cases r with
  | plant tree =>
    rw [outcome, hplanted List.mem_cons_self]
    simp [gone, incoming, or_comm]
  | fell root =>
    rw [outcome, NodeTable.mem_felled]
    simp [gone, incoming]
  | attach p tree =>
    rw [outcome, NodeTable.attached, NodeTable.mem_inserted, hplanted List.mem_cons_self]
    simp [gone, incoming, or_comm]
  | detach p old =>
    -- Taking the child out of its seat does not change what is below it.
    have hdown : (t.removed p).depthFirst old = t.depthFirst old :=
      NodeTable.depthFirst_withSeated (ht.owner_notMem_depthFirst hr)
    rw [outcome, NodeTable.detached, NodeTable.mem_felled, NodeTable.mem_removed, hdown]
    simp [gone, incoming]
  | exchange p tree old =>
    -- The one that takes the seat does not come below the child that leaves it.
    have hdown : (t.replaced p tree.root.id).depthFirst old = t.depthFirst old :=
      NodeTable.depthFirst_withSeated (ht.owner_notMem_depthFirst hr.1)
    rw [outcome, NodeTable.exchanged, hplanted List.mem_cons_self, NodeTable.mem_felled,
      NodeTable.mem_replaced, hdown]
    simp [gone, incoming, or_comm]
  | move target source id =>
    rw [outcome, NodeTable.mem_moved]
    simp [gone, incoming]
  | moveAndReplace target source id old =>
    obtain ⟨htarget, hs, -, hold⟩ := hr
    rw [outcome, ht.mem_movedAndReplaced htarget hs hold]
    simp [gone, incoming]

end Reshaping

theorem NodeTable.Retouched.mem_iff {t t' : NodeTable} {k : NodeId} (h : t.Retouched t') :
    k ∈ t' ↔ k ∈ t := by
  induction h with
  | self => rfl
  | edited _ _ ih => exact mem_edited.trans ih

namespace Change

variable {m : Model} {c : Change} {r : Reshaping} {k : NodeId}

theorem gone_of_reshaping (ht : m.nodes.Treelike) (hc : c.Fits m) (h : c.reshaping? = some r) :
    c.gone = r.gone m.nodes := by
  have hids (old : Subtree) (hold : old ∈ c.outgoing) :
      old.nodes.map Node.id = m.nodes.depthFirst old.root.id :=
    NodeTable.ids_collect ht.keyed (collect_of_outgoing hc hold)
  cases c <;> cases h
  case partitionDeleted | childDeleted | childReplaced | childMovedAndReplaced | annotationDeleted |
      annotationReplaced | annotationMovedAndReplaced =>
    exact (List.flatMap_singleton _ _).trans (hids _ List.mem_cons_self)
  all_goals rfl

/-- The nodes after a change are those before without what goes and with what comes. -/
theorem mem_outcome (ht : m.nodes.Treelike) (hc : c.Fits m)
    (htree : ∀ tree ∈ c.incoming, tree.IsTree) :
    k ∈ c.outcome m.nodes ↔ (k ∈ m.nodes ∧ k ∉ c.gone) ∨ k ∈ c.came := by
  cases hr : c.reshaping? with
  | none =>
    have hcame : c.came = [] := by cases c <;> cases hr <;> rfl
    have hgone : c.gone = [] := by cases c <;> cases hr <;> rfl
    rw [(retouched_outcome hr).mem_iff, hcame, hgone]
    simp
  | some r =>
    rw [outcome_of_reshaping hr, gone_of_reshaping ht hc hr, came, incoming_of_reshaping hr]
    exact Reshaping.mem_outcome ht (fits_of_reshaping ht hc hr) (incoming_of_reshaping hr ▸ htree)

/-- What comes has not been there. -/
theorem notMem_of_came (hc : c.Fits m) (hk : k ∈ c.came) : k ∉ m.nodes := by
  obtain ⟨tree, htree, hk⟩ := List.mem_flatMap.1 hk
  exact (vacant_of_fits hc tree htree).notMem hk

/-- What goes has been there. -/
theorem mem_of_gone (ht : m.nodes.Treelike) (hc : c.Fits m) (hk : k ∈ c.gone) : k ∈ m.nodes := by
  obtain ⟨old, hold, hk⟩ := List.mem_flatMap.1 hk
  obtain ⟨n, hn, rfl⟩ := List.mem_map.1 hk
  exact mem_of_lookup ((records_of_outgoing ht hc hold).standing n hn)

/-- The ids of one tree at most are distinct. -/
theorem nodup_ids {trees : List Subtree} (hlength : trees.length ≤ 1)
    (hdistinct : ∀ tree ∈ trees, (tree.nodes.map Node.id).Nodup) :
    (trees.flatMap fun tree => tree.nodes.map Node.id).Nodup := by
  match trees with
  | [] => exact List.nodup_nil
  | [tree] =>
    rw [List.flatMap_singleton]
    exact hdistinct tree List.mem_cons_self
  | _ :: _ :: _ => simp at hlength

theorem nodup_came (htree : ∀ tree ∈ c.incoming, tree.IsTree) : c.came.Nodup :=
  nodup_ids c.length_incoming_le fun tree hin => (htree tree hin).distinct

theorem nodup_gone (ht : m.nodes.Treelike) (hc : c.Fits m) : c.gone.Nodup :=
  nodup_ids c.length_outgoing_le fun _ hold =>
    NodeTable.distinct_collect ht.keyed (collect_of_outgoing hc hold)

/-- A node has left if and only if it is recorded as gone: what has been there does not come. -/
theorem left_iff (ht : m.nodes.Treelike) (hc : c.Fits m)
    (htree : ∀ tree ∈ c.incoming, tree.IsTree) :
    k ∈ m.nodes ∧ k ∉ c.outcome m.nodes ↔ k ∈ c.gone := by
  rw [mem_outcome ht hc htree]
  constructor
  · rintro ⟨hk, hleft⟩
    by_contra hgone
    exact hleft (.inl ⟨hk, hgone⟩)
  · intro hgone
    have hk := mem_of_gone ht hc hgone
    refine ⟨hk, ?_⟩
    rintro (⟨-, hstays⟩ | hcame)
    · exact hstays hgone
    · exact notMem_of_came hc hcame hk

/-- The list of partitions gets one more at its end, loses one, or stays. -/
theorem relists {f : Forest} (h : f.WellFormed) (hc : c.Fits f.model) :
    c.Relists f.partitions (c.roots f.partitions) := by
  cases c
  case partitionAdded => exact .added
  case partitionDeleted tree =>
    have hmem : tree.root.id ∈ f.partitions := (h.roots _).2 (NodeTable.isTop_iff.2 hc.1)
    obtain ⟨before, behind, heq⟩ := List.append_of_mem hmem
    have hd := h.distinct
    rw [heq, List.nodup_middle, List.nodup_cons] at hd
    -- The root stands only once in the list.
    have hroots : (partitionDeleted tree).roots f.partitions = before ++ behind := by
      rw [roots, heq, List.filter_append, List.filter_cons_of_neg (by simp), ← List.filter_append,
        List.filter_eq_self]
      intro k hk
      exact decide_eq_true fun hroot => hd.1 (hroot ▸ hk)
    rw [hroots, heq]
    exact .deleted
  all_goals exact .other (of_decide_eq_true rfl)

end Change

/-! ## The event -/

namespace Protocol.Event

variable {types : TypeRegistry} {c : Change} {event : Event}

/-- An event tells of each subtree that goes by its ids. -/
theorem removals_ofChange (h : ofChange types c = .ok event) :
    event.removals = c.outgoing.map Removal.ofSubtree := by
  cases c <;> simp only [ofChange, bind_eq_ok, pure_eq_ok, Except.ok.injEq] at h
  case partitionDeleted | annotationMoved | annotationDeleted | annotationMovedAndReplaced =>
    subst h
    rfl
  case partitionAdded | propertyAdded | propertyDeleted | propertyChanged | childDeleted |
      childMoved | childMovedAndReplaced | annotationAdded | annotationReplaced | entryAdded |
      entryDeleted | entryChanged | entryMoved | entryMovedAndReplaced | resolveInfoAdded |
      resolveInfoDeleted | resolveInfoChanged | targetAdded | targetDeleted | targetChanged =>
    obtain ⟨_, -, rfl⟩ := h
    rfl
  case classifierChanged | childAdded | childReplaced =>
    obtain ⟨_, -, _, -, rfl⟩ := h
    rfl

/-- The event for a change lists the ids that have left, each once. -/
theorem lists_ofChange {m : Model} (ht : m.nodes.Treelike) (hc : c.Fits m)
    (htree : ∀ tree ∈ c.incoming, tree.IsTree) (h : ofChange types c = .ok event) :
    event.Lists m.nodes (c.outcome m.nodes) where
  left k := by
    rw [Change.left_iff ht hc htree, removals_ofChange h, Change.gone, List.mem_flatMap]
    constructor
    · -- A subtree that goes is told by its root and the ids below it.
      rintro ⟨old, hold, hk⟩
      exact ⟨_, List.mem_map_of_mem hold, List.mem_cons.1 hk⟩
    · rintro ⟨_, hremoval, hk⟩
      obtain ⟨old, hold, rfl⟩ := List.mem_map.1 hremoval
      exact ⟨old, hold, List.mem_cons.2 hk⟩
  once := by
    rw [removals_ofChange h]
    refine List.forall_mem_map.2 fun old hold => ?_
    exact NodeTable.distinct_collect ht.keyed (Change.collect_of_outgoing hc hold)
  single := by
    rw [removals_ofChange h, List.length_map]
    exact c.length_outgoing_le

end Protocol.Event

/-! ## The whole account -/

/-- What a change that makes `f'` of `f` says of what comes and goes is so, and nothing else
    happens. -/
structure Change.Accounts (c : Change) (f f' : Forest) : Prop where
  /-- The nodes after are those before without the ones that go and with the ones that come. -/
  ids : ∀ k, k ∈ f'.nodes ↔ (k ∈ f.nodes ∧ k ∉ c.gone) ∨ k ∈ c.came
  /-- What goes has been there, and goes once. -/
  gone : c.gone.Nodup ∧ ∀ k ∈ c.gone, k ∈ f.nodes
  /-- What comes has not been there, and comes once. -/
  came : c.came.Nodup ∧ ∀ k ∈ c.came, k ∉ f.nodes
  /-- What comes is stored as it comes, but for the node above. -/
  arrived : ∀ tree ∈ c.incoming, ∀ n ∈ tree.nodes,
    ∃ parent, f'.nodes[n.id]? = some { n with parent := parent }
  /-- What goes is recorded as it stood, with all its descendants, in preorder. -/
  recorded : ∀ old ∈ c.outgoing, f.nodes.Records old
  /-- The node that goes stood at the place that the change names, or was a partition. -/
  named : ∀ old ∈ c.outgoing,
    (∀ p, c.vacated? = some p → f.nodes.at? p = some old.root.id) ∧
      (c.vacated? = none → old.root.id ∈ f.partitions)
  /-- The event for the change can be told. It names the root of what goes and lists the ids that
      have left, each once. -/
  told : ∃ event, Event.ofChange f.types c = .ok event ∧
    event.removals.map (·.root) = c.outgoing.map (·.root.id) ∧ event.Lists f.nodes f'.nodes
  /-- Partitions are appended and dropped only. -/
  partitions : c.Relists f.partitions f'.partitions
  /-- Of all other nodes only what the change edits is different. -/
  kept : f.nodes.Keeps f'.nodes c.edits

/-- An accepted change accounts for all nodes that come and go, in whatever has come about. -/
theorem Site.Reachable.accounted {types : TypeRegistry} {languages : List Language}
    (htypes : TypeRegistry.registerAll .empty languages = .ok types) {site : Site}
    {past : List Checkpoint} {made : List Change} (h : Site.Reachable types site past made)
    {c : Change} (hin : ∀ tree ∈ c.incoming, tree.Obtainable) {f' : Forest}
    (happly : Forest.Action.apply c site.forest = .ok () f') : c.Accounts site.forest f' := by
  have hproper := h.proper
  have hwell := hproper.wellFormed
  have ht := hwell.treelike
  have htree : ∀ tree ∈ c.incoming, tree.IsTree := fun tree ht => (hin tree ht).isTree
  obtain ⟨hreplan, rfl⟩ := (Forest.Action.apply_eq_ok ht htree).1 happly
  have hc : c.Fits site.forest.model := Model.fits_of_replan hreplan
  -- A change that is accepted can be told as an event.
  obtain ⟨event, hevent, -⟩ :=
    Forest.exists_event (TypeRegistry.lawful_of_registerAll htypes) hproper hreplan htree
  exact
    { ids := fun k => Change.mem_outcome ht hc htree
      gone := ⟨Change.nodup_gone ht hc, fun k => Change.mem_of_gone ht hc⟩
      came := ⟨Change.nodup_came htree, fun k => Change.notMem_of_came hc⟩
      arrived := fun tree hin n => Change.lookup_incoming ht hc (htree tree hin) hin
      recorded := fun old => Change.records_of_outgoing ht hc
      named := fun old hold => ⟨fun p hp => Change.at?_of_vacated hc hp hold,
        fun hp => (hwell.roots _).2 (Change.isTop_of_outgoing hc hp hold)⟩
      told := ⟨event, hproper.types ▸ hevent,
        by rw [Event.removals_ofChange hevent, List.map_map]; rfl,
        Event.lists_ofChange ht hc htree hevent⟩
      partitions := Change.relists hwell hc
      kept := Change.keeps_outcome ht hc htree }

/-! ## One book for another -/

namespace Examples

/-- With the succession the first book goes and the second one comes. -/
theorem accounted_succession :
    Forest.Action.apply succession stocked.forest =
        .ok () (stocked.forest.changed succession) ∧
      succession.gone = [⟨"novel"⟩] ∧ succession.came = [⟨"sequel"⟩] ∧
      succession.Accounts stocked.forest (stocked.forest.changed succession) :=
  ⟨apply_succession, rfl, rfl, Site.Reachable.accounted registerAll_library reachable_stocked
    obtainable_succession apply_succession⟩

end Examples

end DeltaForest
