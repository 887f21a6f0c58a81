import DeltaForest.Proofs.Surgery

/-!
# Trees put together again

A subtree that travels loses the links to the nodes above and the lists that hold nothing. Its
nodes, put together at the other end, are the same tree again, with the links set anew:
`Subtree.ofList_travelled`.
-/

namespace DeltaForest

/-- A node without its empty lists and without a link to the node above. -/
def Node.travelled (n : Node) : Node := { n.prune with parent := none }

namespace Node

variable (n : Node)

@[simp] theorem id_travelled : n.travelled.id = n.id := rfl

@[simp] theorem owned_travelled : n.travelled.owned = n.owned := n.owned_prune

@[simp] theorem targets_travelled : n.travelled.targets = n.targets := n.targets_prune

end Node

namespace Subtree

/-- A subtree as it arrives. -/
def travelled (s : Subtree) : Subtree := ⟨s.root.travelled, s.descendants.map Node.prune⟩

@[simp] theorem id_root_travelled (s : Subtree) : s.travelled.root.id = s.root.id := rfl

theorem ids_travelled (s : Subtree) : s.travelled.nodes.map Node.id = s.nodes.map Node.id := by
  simp [nodes, travelled, Function.comp_def]

namespace IsTree

variable {s : Subtree} (h : s.IsTree) {k p : NodeId}

include h

/-- Each ownership is there as often as the link says. -/
theorem count_ownerships : (ownerships s.nodes).count (p, k) =
    if (s.table none).above? k = some p then 1 else 0 := by
  rw [Subtree.count_ownerships h.distinct, ← h.treelike.linked, NodeTable.holdings,
    NodeTable.holdings, lookup_table h.distinct, Option.map_map]
  congr 2
  funext n
  show n.owned.count k = (Node.owned (if p = s.root.id then _ else n)).count k
  split <;> rfl

/-- Who owns whom is what the links say. -/
theorem mem_ownerships : (p, k) ∈ ownerships s.nodes ↔ (s.table none).above? k = some p := by
  rw [← List.count_pos_iff, h.count_ownerships]
  split <;> simp_all

theorem once_ownerships : ((ownerships s.nodes).map (·.2)).Nodup := by
  have hnodup : (ownerships s.nodes).Nodup := by
    rw [List.nodup_iff_count_le_one]
    rintro ⟨p, k⟩
    rw [h.count_ownerships]
    split <;> omega
  refine List.Nodup.map_on ?_ hnodup
  rintro ⟨p, k⟩ hp ⟨q, k'⟩ hq rfl
  rw [h.mem_ownerships] at hp hq
  exact Prod.ext (Option.some.inj (hp.symm.trans hq)) rfl

theorem owner_eq : ((ownerships s.nodes).find? (·.2 = k)).map (·.1) = (s.table none).above? k := by
  ext p
  rw [owner_eq_some h.once_ownerships]
  exact h.mem_ownerships

theorem above?_root : (s.table none).above? s.root.id = none := by
  have hroot : (NodeTable.ofList s.nodes)[s.root.id]? = some s.root :=
    (NodeTable.lookup_ofList_eq_some h.distinct).2 ⟨List.mem_cons_self, rfl⟩
  simp [NodeTable.above?, lookup_table h.distinct, hroot]

/-- A node below the root has the link that is told. -/
theorem above?_descendant {n : Node} (hn : n ∈ s.descendants) :
    (s.table none).above? n.id = n.parent := by
  have hd := h.distinct
  rw [nodes, List.map_cons, List.nodup_cons] at hd
  have hne : n.id ≠ s.root.id := fun heq => hd.1 (heq ▸ List.mem_map_of_mem hn)
  have hlookup : (NodeTable.ofList s.nodes)[n.id]? = some n :=
    (NodeTable.lookup_ofList_eq_some h.distinct).2 ⟨List.mem_cons_of_mem _ hn, rfl⟩
  simp [NodeTable.above?, lookup_table h.distinct, hlookup, hne]

/-- Only the root is owned by no other node. -/
theorem filter_rooted :
    ((s.nodes.map Node.id).filter fun id => (ownerships s.nodes).all (·.2 ≠ id)) =
      [s.root.id] := by
  have hfree (k : NodeId) : (ownerships s.nodes).all (·.2 ≠ k) = true ↔
      (s.table none).above? k = none := by
    rw [← h.owner_eq, Option.map_eq_none_iff, List.find?_eq_none]
    simp
  have hids : s.nodes.map Node.id = s.root.id :: s.descendants.map Node.id := rfl
  rw [hids, List.filter_cons, if_pos ((hfree _).2 h.above?_root), List.filter_eq_nil_iff.2]
  intro k hk
  obtain ⟨n, hn, rfl⟩ := List.mem_map.1 hk
  rw [hfree, h.above?_descendant hn]
  exact fun hnone => by simpa [hnone] using h.below n hn

end IsTree

/-! ## From nodes that have lost their links -/

section Travelled

variable {s : Subtree} {k : NodeId}

theorem ids_map_travelled (nodes : List Node) :
    (nodes.map Node.travelled).map Node.id = nodes.map Node.id := by
  simp [Function.comp_def]

theorem ownerships_map_travelled (nodes : List Node) :
    ownerships (nodes.map Node.travelled) = ownerships nodes := by
  simp only [ownerships, List.flatMap_map, Node.id_travelled, Node.owned_travelled]

theorem lookup_map_travelled {nodes : List Node} (hd : (nodes.map Node.id).Nodup) :
    (NodeTable.ofList (nodes.map Node.travelled))[k]? =
      (NodeTable.ofList nodes)[k]?.map Node.travelled := by
  rw [NodeTable.lookup_ofList (ids_map_travelled nodes ▸ hd), NodeTable.lookup_ofList hd,
    List.find?_map]
  rfl

/-- Looking up the ids of nodes gives the nodes. -/
theorem filterMap_ids {nodes : List Node} (hd : (nodes.map Node.id).Nodup) :
    (nodes.map Node.id).filterMap (fun id => (NodeTable.ofList nodes)[id]?) = nodes := by
  rw [List.filterMap_map, List.filterMap_congr (g := some), List.filterMap_some]
  intro n hn
  exact (NodeTable.lookup_ofList_eq_some hd).2 ⟨hn, rfl⟩

variable (h : s.IsTree)

include h

/-- Linking gives every node but the root the link that it had. -/
theorem map_link_travelled :
    (s.nodes.map Node.travelled).map (link (ownerships s.nodes)) = s.travelled.nodes := by
  -- The owner that is found is the node above, as in a tree there is one at most.
  have howner {n : Node} : (link (ownerships s.nodes) n.travelled) =
      { n.prune with parent := (s.table none).above? n.id } := by
    rw [← h.owner_eq, link, Node.id_travelled]
    cases (ownerships s.nodes).find? (·.2 = n.id) <;> rfl
  have hroot : link (ownerships s.nodes) s.root.travelled = s.root.travelled := by
    rw [howner, h.above?_root]
    rfl
  have hrest : (s.descendants.map Node.travelled).map (link (ownerships s.nodes)) =
      s.descendants.map Node.prune := by
    rw [List.map_map]
    refine List.map_congr_left fun n hn => ?_
    rw [Function.comp_apply, howner, h.above?_descendant hn]
    rfl
  exact congrArg₂ List.cons hroot hrest

/-- The nodes of a tree, stripped of their links, grow into the tree again. -/
theorem grown_travelled : Grown (s.nodes.map Node.travelled) s.root.id s.travelled := by
  have hids := ids_map_travelled s.nodes
  have hd : ((s.nodes.map Node.travelled).map Node.id).Nodup := hids ▸ h.distinct
  have hpairs := ownerships_map_travelled s.nodes
  have hwalk : (NodeTable.ofList (s.nodes.map Node.travelled)).depthFirst s.root.id =
      (s.nodes.map Node.travelled).map Node.id := by
    rw [hids, h.ordered]
    -- Neither empty lists nor links matter to the walk.
    refine NodeTable.depthFirst_congr fun k _ => ?_
    rw [lookup_map_travelled h.distinct, lookup_table h.distinct, Option.map_map, Option.map_map]
    congr 1
    funext n
    show n.travelled.owned = Node.owned (if k = s.root.id then _ else n)
    rw [n.owned_travelled]
    split <;> rfl
  exact
    { distinct := hd
      present := fun pair hpair => by
        rw [hpairs, h.mem_ownerships] at hpair
        rw [hids, ← NodeTable.mem_table h.distinct]
        exact (h.treelike.mem_of_above? hpair).1
      once := hpairs ▸ h.once_ownerships
      rooted := by rw [hids, hpairs, h.filter_rooted]
      reached := by rw [hwalk, List.length_map]
      inOrder := by rw [hwalk, hpairs, filterMap_ids hd, map_link_travelled h] }

/-- The nodes of a tree, put together again, are the tree. -/
theorem ofList_travelled : ofList (s.nodes.map Node.travelled) = .ok s.travelled :=
  ofList_eq_ok.2 ⟨_, grown_travelled h⟩

end Travelled

end Subtree

end DeltaForest
