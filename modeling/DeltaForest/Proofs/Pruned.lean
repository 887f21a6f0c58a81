import DeltaForest.Proofs.Outcome
import DeltaForest.Proofs.Regrow

/-!
# Nodes that look the same

A containment or reference without anything in it may be stored as an empty list or not at all, and
who looks at the node cannot tell which (`Node.Alike`). Two tables whose nodes look the same differ
in nothing once they are pruned (`NodeTable.alike_iff`).

A change makes of the pruned table what it makes of the table, pruned (`Change.pruned_outcome`).
What the change says is pruned along with it: a subtree that comes as `Subtree.travelled`, one that
goes as `Subtree.pruned`.
-/

namespace DeltaForest

/-! ## Pruned nodes -/

namespace Node

variable (n : Node)

/-- Two nodes that look the same. -/
structure Alike (n n' : Node) : Prop where
  id : n.id = n'.id
  classifier : n.classifier = n'.classifier
  parent : n.parent = n'.parent
  property? : ∀ p, n.property? p = n'.property? p
  children : ∀ c, n.children c = n'.children c
  entries : ∀ r, n.entries r = n'.entries r
  annotations : n.annotations = n'.annotations

/-- Of the lists of all features only those are left that hold something, and these are told by
    what they hold. -/
theorem lookup_filter_isEmpty {α : Type} (m : FeatureMap (List α)) (h : Handle) :
    (m.filter fun _ l => !l.isEmpty)[h]? =
      if (m[h]?.getD []).isEmpty then none else some (m[h]?.getD []) := by
  rw [Std.ExtTreeMap.getElem?_filter']
  cases m[h]? with
  | none => rfl
  | some l => cases l <;> rfl

/-- A pruned node has no containment that is empty. -/
theorem lookup_containments_prune (c : Handle) : n.prune.containments[c]? =
    if (n.children c).isEmpty then none else some (n.children c) :=
  lookup_filter_isEmpty _ c

/-- A pruned node has no reference that is empty. -/
theorem lookup_references_prune (r : Handle) : n.prune.references[r]? =
    if (n.entries r).isEmpty then none else some (n.entries r) :=
  lookup_filter_isEmpty _ r

variable {n} in
/-- Two nodes are the same if they agree in all that is stored. -/
theorem eq_of_fields {n' : Node} (hid : n.id = n'.id) (hclassifier : n.classifier = n'.classifier)
    (hparent : n.parent = n'.parent) (hproperties : n.properties = n'.properties)
    (hcontainments : n.containments = n'.containments)
    (hreferences : n.references = n'.references) (hannotations : n.annotations = n'.annotations) :
    n = n' := by
  cases n
  cases n'
  simp_all

variable {n} in
/-- Nodes that look the same are the same once they are pruned. -/
theorem alike_iff {n' : Node} : n.Alike n' ↔ n.prune = n'.prune := by
  constructor
  · intro h
    -- Pruned lists of features are told by the lists that they stand for.
    refine eq_of_fields h.id h.classifier h.parent ?_ ?_ ?_ h.annotations
    · ext1 p
      exact h.property? p
    · ext1 c
      rw [lookup_containments_prune, lookup_containments_prune, h.children]
    · ext1 r
      rw [lookup_references_prune, lookup_references_prune, h.entries]
  · intro h
    exact
      { id := (congrArg Node.id h :)
        classifier := (congrArg Node.classifier h :)
        parent := (congrArg Node.parent h :)
        property? := fun p => (congrArg (Node.property? · p) h :)
        children := fun c => by rw [← n.children_prune, h, n'.children_prune]
        entries := fun r => by rw [← n.entries_prune, h, n'.entries_prune]
        annotations := (congrArg Node.annotations h :) }

@[simp] theorem prune_prune : n.prune.prune = n.prune :=
  alike_iff.1 ⟨rfl, rfl, rfl, fun _ => rfl, n.children_prune, n.entries_prune, rfl⟩

/-- Whatever is put into a seat, the other lists may be pruned before. -/
theorem prune_withSeated_prune (s : Seat) (ids : List NodeId) :
    (n.prune.withSeated s ids).prune = (n.withSeated s ids).prune := by
  refine alike_iff.1 ?_
  cases s with
  | containment c =>
    refine ⟨rfl, rfl, rfl, fun _ => rfl, fun c' => ?_, n.entries_prune, rfl⟩
    rw [withSeated, withSeated, children_withChildren, children_withChildren, children_prune]
  | annotations => exact ⟨rfl, rfl, rfl, fun _ => rfl, n.children_prune, n.entries_prune, rfl⟩

/-- It does not matter whether a node has been pruned before its entries are set. -/
theorem prune_withEntries_prune (r : Handle) (es : List Entry) :
    (n.prune.withEntries r es).prune = (n.withEntries r es).prune := by
  refine alike_iff.1 ⟨rfl, rfl, rfl, fun _ => rfl, n.children_prune, fun r' => ?_, rfl⟩
  rw [entries_withEntries, entries_withEntries, entries_prune]

end Node

/-! ## Pruned tables -/

namespace NodeTable

variable {t t' : NodeTable} {k id root : NodeId}

/-- Two tables of nodes that look the same. -/
def Alike (t t' : NodeTable) : Prop := ∀ k : NodeId, Option.Rel Node.Alike t[k]? t'[k]?

/-- A table with all nodes pruned. -/
def pruned (t : NodeTable) : NodeTable := t.map fun _ n => n.prune

/-- In a pruned table one finds pruned nodes. -/
@[simp] theorem lookup_pruned : t.pruned[k]? = t[k]?.map Node.prune :=
  Std.ExtTreeMap.getElem?_map

/-- Tables that look the same are the same once they are pruned. -/
theorem alike_iff : t.Alike t' ↔ t.pruned = t'.pruned := by
  have hrel (o o' : Option Node) :
      Option.Rel Node.Alike o o' ↔ o.map Node.prune = o'.map Node.prune := by
    cases o <;> cases o'
    · exact iff_of_true .none rfl
    · exact iff_of_false nofun nofun
    · exact iff_of_false nofun nofun
    · simp [Option.rel_some_some, Node.alike_iff]
  constructor
  · intro h
    ext1 k
    rw [lookup_pruned, lookup_pruned, (hrel _ _).1 (h k)]
  · intro h k
    rw [hrel, ← lookup_pruned, h, lookup_pruned]

theorem Alike.refl (t : NodeTable) : t.Alike t := alike_iff.2 rfl

@[simp] theorem contains_pruned : t.pruned.contains k = t.contains k :=
  Std.ExtTreeMap.contains_map

/-- Pruning does not touch the links to parents. -/
@[simp] theorem above?_pruned : t.pruned.above? k = t.above? k := by
  rw [above?, lookup_pruned, above?]
  cases t[k]? <;> rfl

/-- Pruning drops only seats in which nobody sits. -/
@[simp] theorem seated_pruned {s : Seat} : t.pruned.seated k s = t.seated k s := by
  rw [seated, lookup_pruned, seated]
  cases t[k]? with
  | none => rfl
  | some n => simp

/-- Pruning drops only references without an entry. -/
@[simp] theorem entriesAt_pruned {p : Place Handle} : t.pruned.entriesAt p = t.entriesAt p := by
  rw [entriesAt, lookup_pruned, entriesAt]
  cases t[p.owner]? with
  | none => rfl
  | some n => simp

/-- What is below a node does not depend on empty lists. -/
@[simp] theorem depthFirst_pruned : t.pruned.depthFirst root = t.depthFirst root := by
  refine depthFirst_congr fun k _ => ?_
  rw [lookup_pruned, Option.map_map]
  congr 1
  funext n
  exact n.owned_prune

/-! ## Steps with pruned tables -/

/-- An edit after which it does not matter whether the node was pruned before. -/
theorem pruned_edited {step : Node → Node} (h : ∀ n, (step n.prune).prune = (step n).prune) :
    (t.edited id step).pruned = t.pruned.edited id step := by
  ext1 k
  rw [lookup_pruned, lookup_edited, lookup_edited, lookup_pruned, Option.map_map, Option.map_map]
  congr 1
  funext n
  simp only [Function.comp_apply]
  split
  · rw [h, Node.prune_prune]
  · rfl

/-- Seating others commutes with pruning, as it prunes their owner anyway. -/
theorem pruned_withSeated {owner : NodeId} {s : Seat} {ids : List NodeId} :
    (t.withSeated owner s ids).pruned = t.pruned.withSeated owner s ids :=
  pruned_edited fun n => n.prune_withSeated_prune s ids

theorem pruned_withEntries {p : Place Handle} {es : List Entry} :
    (t.withEntries p es).pruned = t.pruned.withEntries p es :=
  pruned_edited fun n => n.prune_withEntries_prune p.feature es

theorem pruned_inserted {p : Place Seat} : (t.inserted p id).pruned = t.pruned.inserted p id := by
  rw [inserted, inserted, pruned_withSeated, seated_pruned]

theorem pruned_removed {p : Place Seat} : (t.removed p).pruned = t.pruned.removed p := by
  rw [removed, removed, pruned_withSeated, seated_pruned]

theorem pruned_replaced {p : Place Seat} : (t.replaced p id).pruned = t.pruned.replaced p id := by
  rw [replaced, replaced, pruned_withSeated, seated_pruned]

theorem pruned_entryInserted {p : Place Handle} {e : Entry} :
    (t.entryInserted p e).pruned = t.pruned.entryInserted p e := by
  rw [entryInserted, entryInserted, pruned_withEntries, entriesAt_pruned]

theorem pruned_entryRemoved {p : Place Handle} :
    (t.entryRemoved p).pruned = t.pruned.entryRemoved p := by
  rw [entryRemoved, entryRemoved, pruned_withEntries, entriesAt_pruned]

theorem pruned_entryReplaced {p : Place Handle} {e : Entry} :
    (t.entryReplaced p e).pruned = t.pruned.entryReplaced p e := by
  rw [entryReplaced, entryReplaced, pruned_withEntries, entriesAt_pruned]

/-- Editing an entry commutes with pruning. -/
theorem pruned_entryEdited {p : Place Handle} {step : Entry → Entry} :
    (t.entryEdited p step).pruned = t.pruned.entryEdited p step := by
  rw [entryEdited, entryEdited, entriesAt_pruned]
  split
  · exact pruned_entryReplaced
  · rfl

theorem pruned_adopted {above : NodeId} :
    (t.adopted id above).pruned = t.pruned.adopted id above := by
  ext1 k
  rw [lookup_pruned, lookup_adopted, lookup_adopted, lookup_pruned, Option.map_map,
    Option.map_map]
  congr 1
  funext n
  simp only [Function.comp_apply]
  split <;> rfl

/-- Taking out what is below a node commutes with pruning. -/
theorem pruned_felled : (t.felled root).pruned = t.pruned.felled root := by
  ext1 k
  rw [lookup_pruned, lookup_felled, lookup_felled, depthFirst_pruned, lookup_pruned]
  split <;> rfl

/-- Entering nodes commutes with pruning, node by node. -/
theorem pruned_insertAll (nodes : List Node) :
    (nodes.foldl (fun t n => t.insert n.id n) t).pruned =
      (nodes.map Node.prune).foldl (fun t n => t.insert n.id n) t.pruned := by
  have hinsert (t : NodeTable) (n : Node) :
      NodeTable.pruned (t.insert n.id n) = t.pruned.insert n.prune.id n.prune := by
    ext1 k
    rw [lookup_pruned, lookup_insert, lookup_insert, lookup_pruned, Node.id_prune]
    split <;> rfl
  induction nodes generalizing t with
  | nil => rfl
  | cons n nodes ih => rw [List.map_cons, List.foldl_cons, List.foldl_cons, ih, hinsert]

/-- The link of the root is set anew, so that it does not matter that it is lost on the way. -/
theorem pruned_planted {tree : Subtree} {above : Option NodeId} :
    (t.planted tree above).pruned = t.pruned.planted tree.travelled above :=
  pruned_insertAll _

/-- A subtree arrives pruned in a pruned table. -/
theorem pruned_attached {p : Place Seat} {tree : Subtree} :
    (t.attached p tree).pruned = t.pruned.attached p tree.travelled := by
  rw [attached, attached, pruned_inserted, pruned_planted, Subtree.id_root_travelled]

theorem pruned_detached {p : Place Seat} : (t.detached p id).pruned = t.pruned.detached p id := by
  rw [detached, detached, pruned_felled, pruned_removed]

theorem pruned_exchanged {p : Place Seat} {tree : Subtree} :
    (t.exchanged p tree id).pruned = t.pruned.exchanged p tree.travelled id := by
  rw [exchanged, exchanged, pruned_planted, pruned_felled, pruned_replaced,
    Subtree.id_root_travelled]

/-- A move commutes with pruning. -/
theorem pruned_moved {target source : Place Seat} :
    (t.moved target source id).pruned = t.pruned.moved target source id := by
  rw [moved, moved, pruned_adopted, pruned_inserted, pruned_removed]

theorem pruned_movedAndReplaced {target source : Place Seat} {old : NodeId} :
    (t.movedAndReplaced target source id old).pruned =
      t.pruned.movedAndReplaced target source id old := by
  rw [movedAndReplaced, movedAndReplaced, pruned_adopted, pruned_felled, pruned_removed,
    pruned_replaced]

end NodeTable

/-! ## Changes -/

/-- A subtree with all nodes pruned. -/
def Subtree.pruned (s : Subtree) : Subtree := ⟨s.root.prune, s.descendants.map Node.prune⟩

@[simp] theorem Subtree.id_root_pruned (s : Subtree) : s.pruned.root.id = s.root.id := rfl

theorem Subtree.nodes_pruned (s : Subtree) : s.pruned.nodes = s.nodes.map Node.prune := rfl

@[simp] theorem Subtree.travelled_travelled (s : Subtree) :
    s.travelled.travelled = s.travelled := by
  have hroot : s.root.travelled.travelled = s.root.travelled :=
    congrArg (fun n : Node => { n with parent := none }) s.root.prune_prune
  rw [travelled, travelled, hroot, List.map_map]
  exact congrArg _ (List.map_congr_left fun n _ => n.prune_prune)

namespace Change

/-- A change with other subtrees that come and that go. -/
def mapTrees (come go : Subtree → Subtree) : Change → Change
  | partitionAdded tree => partitionAdded (come tree)
  | partitionDeleted tree => partitionDeleted (go tree)
  | childAdded place new => childAdded place (come new)
  | childDeleted place old => childDeleted place (go old)
  | childReplaced place new old => childReplaced place (come new) (go old)
  | childMovedAndReplaced shift moved old => childMovedAndReplaced shift moved (go old)
  | annotationAdded place new => annotationAdded place (come new)
  | annotationDeleted place old => annotationDeleted place (go old)
  | annotationReplaced place new old => annotationReplaced place (come new) (go old)
  | annotationMovedAndReplaced shift moved old => annotationMovedAndReplaced shift moved (go old)
  | c => c

/-- A change as it arrives: what comes with it has travelled. -/
def travelled (c : Change) : Change := c.mapTrees Subtree.travelled id

/-- A change of a pruned table. -/
def oldPruned (c : Change) : Change := c.mapTrees id Subtree.pruned

/-- Rewriting the trees of a change twice comes to rewriting them once. -/
theorem mapTrees_mapTrees (come come' go go' : Subtree → Subtree) (c : Change) :
    (c.mapTrees come go).mapTrees come' go' = c.mapTrees (come' ∘ come) (go' ∘ go) := by
  cases c <;> rfl

/-- The kind of a change does not depend on its trees. -/
@[simp] theorem kind_mapTrees (come go : Subtree → Subtree) (c : Change) :
    (c.mapTrees come go).kind = c.kind := by
  cases c <;> rfl

/-- Of a change with pruned old trees the new ones travel as they would have. -/
theorem travelled_oldPruned (c : Change) :
    c.oldPruned.travelled = c.mapTrees Subtree.travelled Subtree.pruned := by
  rw [oldPruned, travelled, mapTrees_mapTrees]
  rfl

/-- What has travelled arrives as it is. -/
@[simp] theorem travelled_travelled (c : Change) : c.travelled.travelled = c.travelled := by
  rw [travelled, travelled, mapTrees_mapTrees]
  exact congrArg (mapTrees · id c) (funext Subtree.travelled_travelled)

/-- It does not matter whether a change travels first or has its old trees pruned first. -/
theorem oldPruned_travelled (c : Change) : c.travelled.oldPruned = c.oldPruned.travelled := by
  rw [travelled_oldPruned, travelled, oldPruned, mapTrees_mapTrees]
  rfl

/-- What a change makes of a pruned table. -/
theorem pruned_outcome (t : NodeTable) (c : Change) :
    (c.outcome t).pruned = c.oldPruned.travelled.outcome t.pruned := by
  cases c
  case partitionAdded => exact NodeTable.pruned_planted
  case partitionDeleted => exact NodeTable.pruned_felled
  case classifierChanged | propertyAdded | propertyChanged | propertyDeleted =>
    exact NodeTable.pruned_edited fun n => Node.alike_iff.1
      ⟨rfl, rfl, rfl, fun _ => rfl, n.children_prune, n.entries_prune, rfl⟩
  case childAdded | annotationAdded => exact NodeTable.pruned_attached
  case childDeleted | annotationDeleted => exact NodeTable.pruned_detached
  case childReplaced | annotationReplaced => exact NodeTable.pruned_exchanged
  case childMoved | annotationMoved => exact NodeTable.pruned_moved
  case childMovedAndReplaced | annotationMovedAndReplaced =>
    exact NodeTable.pruned_movedAndReplaced
  case entryAdded => exact NodeTable.pruned_entryInserted
  case entryDeleted => exact NodeTable.pruned_entryRemoved
  case entryChanged => exact NodeTable.pruned_entryReplaced
  case entryMoved =>
    exact NodeTable.pruned_entryInserted.trans
      (congrArg (NodeTable.entryInserted · _ _) NodeTable.pruned_entryRemoved)
  case entryMovedAndReplaced shift moved old =>
    -- The owner of the source is pruned on the way, which is lost on a pruned table.
    show NodeTable.pruned (NodeTable.entryRemoved (NodeTable.entryReplaced _ _ _) _) = _
    rw [NodeTable.pruned_entryRemoved, NodeTable.pruned_entryReplaced,
      NodeTable.pruned_edited fun n => n.prune_prune]
    rfl
  all_goals exact NodeTable.pruned_entryEdited

/-- What a change makes of the list of partitions has nothing to do with empty lists. -/
theorem roots_mapTrees {come go : Subtree → Subtree} (hcome : ∀ s, (come s).root.id = s.root.id)
    (hgo : ∀ s, (go s).root.id = s.root.id) (partitions : List NodeId) (c : Change) :
    (c.mapTrees come go).roots partitions = c.roots partitions := by
  cases c <;> simp [mapTrees, roots, hcome, hgo]

end Change

end DeltaForest
