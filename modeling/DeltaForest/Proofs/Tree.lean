import DeltaForest.Proofs.Treelike
import Mathlib.Data.List.Count
import Mathlib.Data.List.Perm.Subperm

/-!
# Subtrees that are trees

A subtree comes into being in three ways: it is put together from nodes in any order
(`Subtree.ofList`), read from a chunk, which is put together in the same way, or taken out of a
table (`NodeTable.collect`). Each of them gives a tree (`Subtree.IsTree`): ids are distinct, the
nodes are a tree as a table, every node but the root has a link to its owner, and the nodes stand
in the order of a walk downwards from the root. Here this is shown of nodes that are put together.
-/

namespace DeltaForest

namespace Subtree

/-- The table of a subtree whose root is put below a node, or stands on its own. -/
def table (s : Subtree) (parent : Option NodeId) : NodeTable :=
  .ofList (⟨{ s.root with parent := parent }, s.descendants⟩ : Subtree).nodes

/-- A subtree that is a tree. -/
structure IsTree (s : Subtree) : Prop where
  distinct : (s.nodes.map Node.id).Nodup
  treelike : (s.table none).Treelike
  below : ∀ n ∈ s.descendants, n.parent.isSome
  ordered : s.nodes.map Node.id = (s.table none).depthFirst s.root.id

variable {s : Subtree} {nodes : List Node} {k root : NodeId} {n : Node} {parent : Option NodeId}

/-- The table holds the nodes of the subtree, but for the link of the root. -/
theorem lookup_table (hd : (s.nodes.map Node.id).Nodup) :
    (s.table parent)[k]? = (NodeTable.ofList s.nodes)[k]?.map fun n =>
      if k = s.root.id then { n with parent := parent } else n := by
  have hd' : ((⟨{ s.root with parent := parent }, s.descendants⟩ : Subtree).nodes.map
      Node.id).Nodup := hd
  rw [table, NodeTable.lookup_ofList hd', NodeTable.lookup_ofList hd, nodes, nodes,
    List.find?_cons, List.find?_cons]
  by_cases hk : s.root.id = k
  · simp [hk]
  · have : ∀ n : Node, (if k = s.root.id then { n with parent := parent } else n) = n :=
      fun n => if_neg (Ne.symm hk)
    simp [hk, this]

/-! ## From nodes in any order -/

/-- No id is repeated if there are no two alike and none has been seen before. -/
theorem firstRepeated_eq_none {seen ids : List NodeId} :
    firstRepeated seen ids = none ↔ ids.Nodup ∧ ∀ id ∈ ids, id ∉ seen := by
  induction ids generalizing seen with
  | nil => simp [firstRepeated]
  | cons id ids ih =>
    rw [firstRepeated, List.nodup_cons, List.forall_mem_cons]
    split
    · next hid => simp [hid]
    · next hid =>
      rw [ih]
      constructor
      · rintro ⟨hd, hfresh⟩
        refine ⟨⟨fun hmem => hfresh id hmem List.mem_cons_self, hd⟩, hid, fun id' hmem hseen => ?_⟩
        exact hfresh id' hmem (List.mem_cons_of_mem _ hseen)
      · -- What has been seen is now this id or was seen before.
        rintro ⟨⟨hnew, hd⟩, -, hfresh⟩
        refine ⟨hd, fun id' hmem hseen => ?_⟩
        rcases List.mem_cons.1 hseen with rfl | hseen
        · exact hnew hmem
        · exact hfresh id' hmem hseen

/-- Without a flaw every child is there and owned once. -/
theorem firstFlaw_eq_none {present owned : List NodeId} {pairs : List (NodeId × NodeId)} :
    firstFlaw present owned pairs = none ↔
      (∀ pair ∈ pairs, pair.2 ∈ present) ∧ (pairs.map (·.2)).Nodup ∧
        ∀ pair ∈ pairs, pair.2 ∉ owned := by
  induction pairs generalizing owned with
  | nil => simp [firstFlaw]
  | cons pair pairs ih =>
    obtain ⟨owner, child⟩ := pair
    rw [firstFlaw, List.forall_mem_cons, List.forall_mem_cons, List.map_cons, List.nodup_cons]
    split
    · next hpresent => simp [hpresent]
    -- A flaw is a child that is missing or has an owner already.
    split
    · next howned => simp [howned]
    next hpresent howned =>
    rw [Decidable.not_not] at hpresent
    rw [ih]
    constructor
    · rintro ⟨hp, hd, hfresh⟩
      refine ⟨⟨hpresent, hp⟩, ⟨fun hmem => ?_, hd⟩, howned, fun pair hpair hmem => ?_⟩
      · obtain ⟨pair, hpair, hchild⟩ := List.mem_map.1 hmem
        exact hfresh pair hpair (hchild ▸ List.mem_cons_self)
      · exact hfresh pair hpair (List.mem_cons_of_mem _ hmem)
    · -- Owned is now this child or was owned before.
      rintro ⟨⟨-, hp⟩, ⟨hnew, hd⟩, -, hfresh⟩
      refine ⟨hp, hd, fun pair hpair hmem => ?_⟩
      rcases List.mem_cons.1 hmem with hchild | hmem
      · exact hnew (List.mem_map.2 ⟨pair, hpair, hchild⟩)
      · exact hfresh pair hpair hmem

/-- The ownerships of nodes tell how often one owns another. -/
theorem count_ownerships (hd : (nodes.map Node.id).Nodup) (p k : NodeId) :
    (ownerships nodes).count (p, k) = (NodeTable.ofList nodes).holdings p k := by
  induction nodes with
  | nil => simp [ownerships, NodeTable.holdings, NodeTable.ofList]
  | cons n nodes ih =>
    have hd' := hd
    rw [List.map_cons, List.nodup_cons] at hd
    have ih := ih hd.2
    rw [NodeTable.holdings, NodeTable.lookup_ofList hd.2] at ih
    rw [NodeTable.holdings, NodeTable.lookup_ofList hd', ownerships, List.flatMap_cons,
      List.count_append, List.find?_cons]
    rw [ownerships] at ih
    rw [ih]
    by_cases hp : n.id = p
    · -- All pairs of this owner come from the first node.
      have hnone : nodes.find? (·.id = p) = none := find?_eq_none_of_notMem (hp ▸ hd.1)
      have hinj : Function.Injective fun child : NodeId => (n.id, child) :=
        fun _ _ h => (Prod.mk.inj h).2
      have hcount := List.count_map_of_injective n.owned _ hinj k
      rw [hp] at hcount
      simp [hnone, hp, hcount]
    · have hnone : (n.owned.map fun child => (n.id, child)).count (p, k) = 0 := by
        rw [List.count_eq_zero]
        intro hmem
        obtain ⟨child, -, hchild⟩ := List.mem_map.1 hmem
        exact hp (congrArg Prod.fst hchild)
      simp [hnone, hp]

/-- When nodes in any order are a tree, and which one. -/
structure Grown (nodes : List Node) (root : NodeId) (s : Subtree) : Prop where
  distinct : (nodes.map Node.id).Nodup
  present : ∀ pair ∈ ownerships nodes, pair.2 ∈ nodes.map Node.id
  once : ((ownerships nodes).map (·.2)).Nodup
  rooted : ((nodes.map Node.id).filter fun id => (ownerships nodes).all (·.2 ≠ id)) = [root]
  reached : ((NodeTable.ofList nodes).depthFirst root).length = nodes.length
  inOrder : s.nodes = (((NodeTable.ofList nodes).depthFirst root).filterMap fun id =>
    (NodeTable.ofList nodes)[id]?).map (link (ownerships nodes))

/-- The first of some nodes is taken for the root, and they stay in order. -/
theorem ofOrdered?_eq_some : ofOrdered? nodes = some s ↔ s.nodes = nodes := by
  obtain ⟨r, d⟩ := s
  cases nodes with
  | nil => simp [ofOrdered?, Subtree.nodes]
  | cons n nodes => simp [ofOrdered?, Subtree.nodes, eq_comm]

/-- All nodes are below the root if the pass from there comes to as many as there are. -/
theorem below_eq_ok : below nodes root = .ok s ↔
    ((NodeTable.ofList nodes).depthFirst root).length = nodes.length ∧
      s.nodes = (((NodeTable.ofList nodes).depthFirst root).filterMap fun id =>
        (NodeTable.ofList nodes)[id]?).map (link (ownerships nodes)) := by
  rw [below]
  split
  · next hlength => simp [hlength]
  · next hlength =>
    rw [Decidable.not_not] at hlength
    rw [← ofOrdered?_eq_some]
    cases ofOrdered? _ with
    | none => simp
    | some s' => simp [hlength]

/-- Nodes in any order give a subtree just if they are a tree. -/
theorem ofList_eq_ok : ofList nodes = .ok s ↔ ∃ root, Grown nodes root s := by
  rw [ofList]
  dsimp only
  split
  · next id hid =>
    refine iff_of_false (by simp) ?_
    rintro ⟨root, h⟩
    rw [firstRepeated_eq_none.2 ⟨h.distinct, by simp⟩] at hid
    simp at hid
  next hrepeated =>
  split
  · next flaw hflaw =>
    refine iff_of_false (by simp) ?_
    rintro ⟨root, h⟩
    rw [firstFlaw_eq_none.2 ⟨h.present, h.once, by simp⟩] at hflaw
    simp at hflaw
  next hflaw =>
  -- All checks are passed; what is left hangs on the nodes that no other one owns.
  have hd := (firstRepeated_eq_none.1 hrepeated).1
  have ⟨hpresent, honce, _⟩ := firstFlaw_eq_none.1 hflaw
  split
  · next hroots =>
    refine iff_of_false (by simp) ?_
    rintro ⟨root, h⟩
    cases h.rooted.symm.trans hroots
  · next root hroots =>
    rw [below_eq_ok]
    constructor
    · rintro ⟨hreached, hnodes⟩
      exact ⟨root, hd, hpresent, honce, hroots, hreached, hnodes⟩
    · rintro ⟨root', h⟩
      obtain rfl : root' = root := by cases h.rooted.symm.trans hroots; rfl
      exact ⟨h.reached, h.inOrder⟩
  · next first second rest hroots =>
    refine iff_of_false (by simp) ?_
    rintro ⟨root, h⟩
    cases h.rooted.symm.trans hroots

/-! ## What has grown is a tree -/

section Link

variable {pairs : List (NodeId × NodeId)}

/-- A node that is linked has another node above it, and is otherwise what it was. -/
theorem link_eq (pairs : List (NodeId × NodeId)) (n : Node) : link pairs n =
    { n with parent := ((pairs.find? (·.2 = n.id)).map (·.1)).or n.parent } := by
  rw [link]
  cases pairs.find? (·.2 = n.id) <;> rfl

@[simp] theorem id_link : (link pairs n).id = n.id := by
  rw [link_eq]

@[simp] theorem owned_link : (link pairs n).owned = n.owned := by
  rw [link_eq]
  rfl

/-- A node is linked to the first one that owns it, if there is one. -/
theorem parent_link :
    (link pairs n).parent = ((pairs.find? (·.2 = n.id)).map (·.1)).or n.parent := by
  rw [link_eq]

/-- Where everything is owned once, the owner can be looked up. -/
theorem owner_eq_some {p : NodeId} (honce : (pairs.map (·.2)).Nodup) :
    (pairs.find? (·.2 = k)).map (·.1) = some p ↔ (p, k) ∈ pairs := by
  constructor
  · intro h
    obtain ⟨⟨p', k'⟩, hfind, rfl⟩ := Option.map_eq_some_iff.1 h
    have hk : k' = k := by simpa using List.find?_some hfind
    exact hk ▸ List.mem_of_find?_eq_some hfind
  · intro h
    obtain ⟨pair, hpair⟩ : ∃ pair, pairs.find? (·.2 = k) = some pair :=
      Option.isSome_iff_exists.1 (List.find?_isSome.2 ⟨_, h, by simp⟩)
    rw [hpair, List.inj_on_of_nodup_map honce (List.mem_of_find?_eq_some hpair) h
      (by simpa using List.find?_some hpair)]
    rfl

end Link

namespace Grown

variable (h : Grown nodes root s)

include h

/-- The walk from the root takes up all nodes. -/
theorem mem_depthFirst :
    k ∈ (NodeTable.ofList nodes).depthFirst root ↔ k ∈ nodes.map Node.id := by
  have hsub : (NodeTable.ofList nodes).depthFirst root ⊆ nodes.map Node.id := by
    intro k hk
    rw [NodeTable.mem_depthFirst] at hk
    cases hk with
    | self => exact (List.mem_filter.1 (h.rooted ▸ List.mem_singleton.2 rfl)).1
    | @step p _ n _ hn hk =>
      obtain ⟨hmem, rfl⟩ := (NodeTable.lookup_ofList_eq_some h.distinct).1 hn
      exact h.present (n.id, k) (List.mem_flatMap.2 ⟨n, hmem, List.mem_map_of_mem hk⟩)
  have hperm := (NodeTable.nodup_depthFirst.subperm hsub).perm_of_length_le
    (Nat.le_of_eq (by rw [h.reached, List.length_map]))
  exact hperm.mem_iff

/-- A subtree has its nodes in the order in which one comes to them. -/
theorem ids_nodes : s.nodes.map Node.id = (NodeTable.ofList nodes).depthFirst root := by
  have hids (l : List NodeId) (hl : ∀ id ∈ l, id ∈ nodes.map Node.id) :
      ((l.filterMap fun id => (NodeTable.ofList nodes)[id]?).map
        (link (ownerships nodes))).map Node.id = l := by
    induction l with
    | nil => rfl
    | cons id l ih =>
      obtain ⟨hid, hl⟩ := List.forall_mem_cons.1 hl
      obtain ⟨n, hn, hnid⟩ := List.mem_map.1 hid
      rw [List.filterMap_cons, (NodeTable.lookup_ofList_eq_some h.distinct).2 ⟨hn, hnid⟩]
      simp only [List.map_cons, id_link, hnid, ih hl]
  rw [h.inOrder]
  exact hids _ fun id hid => h.mem_depthFirst.1 hid

theorem distinct_nodes : (s.nodes.map Node.id).Nodup :=
  h.ids_nodes ▸ NodeTable.nodup_depthFirst

/-- A subtree has the nodes that it has been put together from. -/
theorem perm_ids : (s.nodes.map Node.id).Perm (nodes.map Node.id) := by
  rw [List.perm_ext_iff_of_nodup h.distinct_nodes h.distinct, h.ids_nodes]
  exact fun _ => h.mem_depthFirst

theorem id_root : s.root.id = root := by
  obtain ⟨rest, hrest⟩ := NodeTable.depthFirst_eq_cons (.ofList nodes) root
  have hids := h.ids_nodes
  rw [hrest, Subtree.nodes, List.map_cons] at hids
  exact (List.cons.inj hids).1

/-- Each node of the subtree is one of the nodes, linked to its owner. -/
theorem lookup_nodes : (NodeTable.ofList s.nodes)[k]? =
    (NodeTable.ofList nodes)[k]?.map (link (ownerships nodes)) := by
  ext m
  rw [NodeTable.lookup_ofList_eq_some h.distinct_nodes, h.inOrder]
  simp only [List.mem_map, List.mem_filterMap, Option.map_eq_some_iff]
  constructor
  · rintro ⟨⟨n, ⟨id, -, hn⟩, rfl⟩, rfl⟩
    have hid := ((NodeTable.lookup_ofList_eq_some h.distinct).1 hn).2
    exact ⟨n, by rwa [id_link, hid], rfl⟩
  · rintro ⟨n, hn, rfl⟩
    obtain ⟨hmem, rfl⟩ := (NodeTable.lookup_ofList_eq_some h.distinct).1 hn
    exact ⟨⟨n, ⟨n.id, h.mem_depthFirst.2 (List.mem_map_of_mem hmem), hn⟩, rfl⟩, id_link⟩

/-- In the table of a subtree there are the nodes that it has been put together from, linked. -/
theorem lookup_table_none : (s.table none)[k]? = (NodeTable.ofList nodes)[k]?.map fun n =>
    if k = root then { link (ownerships nodes) n with parent := none }
    else link (ownerships nodes) n := by
  rw [lookup_table h.distinct_nodes, h.lookup_nodes, Option.map_map, h.id_root]
  rfl

/-- Only the root is without an owner. -/
theorem owner_eq_none (hk : k ∈ nodes.map Node.id) :
    ((ownerships nodes).find? (·.2 = k)).map (·.1) = none ↔ k = root := by
  have hfree : k = root ↔ (ownerships nodes).all (·.2 ≠ k) = true := by
    rw [← List.mem_singleton, ← h.rooted, List.mem_filter]
    exact and_iff_right hk
  rw [hfree, Option.map_eq_none_iff, List.find?_eq_none]
  simp

/-- A node is linked to its owner, if there is one. -/
theorem above?_table :
    (s.table none).above? k = ((ownerships nodes).find? (·.2 = k)).map (·.1) := by
  rw [NodeTable.above?, h.lookup_table_none]
  cases hn : (NodeTable.ofList nodes)[k]? with
  | none =>
    refine (Option.map_eq_none_iff.2 (List.find?_eq_none.2 fun pair hpair hk => ?_)).symm
    obtain ⟨n, hmem, hid⟩ := List.mem_map.1 (h.present pair hpair)
    have := (NodeTable.lookup_ofList_eq_some h.distinct).2 ⟨hmem, hid.trans (of_decide_eq_true hk)⟩
    simp [hn] at this
  | some n =>
    obtain ⟨hmem, rfl⟩ := (NodeTable.lookup_ofList_eq_some h.distinct).1 hn
    -- Every node but the root has an owner.
    have howner := h.owner_eq_none (List.mem_map_of_mem hmem)
    by_cases hk : n.id = root
    · rw [howner.2 hk]
      simp [hk]
    · obtain ⟨p, hp⟩ := Option.ne_none_iff_exists'.1 (mt howner.1 hk)
      simp [hk, parent_link, hp]

/-- A node holds another one as often as ownership has been found. -/
theorem holdings_table (p : NodeId) :
    (s.table none).holdings p k = (ownerships nodes).count (p, k) := by
  rw [count_ownerships h.distinct, NodeTable.holdings, NodeTable.holdings, h.lookup_table_none,
    Option.map_map]
  congr 2
  funext n
  by_cases hp : p = root
  · simp only [Function.comp_apply, if_pos hp]
    exact congrArg (List.count k) owned_link
  · simp [hp]

/-- The node above is the owner. -/
theorem above?_of_mem {p : NodeId} (hp : (p, k) ∈ ownerships nodes) :
    (s.table none).above? k = some p := by
  rw [h.above?_table, owner_eq_some h.once]
  exact hp

/-- From every node one comes up to the root, as one has come down from there. -/
theorem grounded : Grounded (s.table none).above? k := by
  -- Below the root, links lead the way back that ownership has led down; all other ids are unknown.
  by_cases hk : NodeTable.Under (.ofList nodes) root k
  · induction hk with
    | self =>
      refine .top ?_
      rw [NodeTable.above?, h.lookup_table_none]
      cases (NodeTable.ofList nodes)[root]? <;> simp
    | @step p k n _ hn hk ih =>
      obtain ⟨hmem, rfl⟩ := (NodeTable.lookup_ofList_eq_some h.distinct).1 hn
      have hpair : (n.id, k) ∈ ownerships nodes :=
        List.mem_flatMap.2 ⟨n, hmem, List.mem_map_of_mem hk⟩
      exact .step (h.above?_of_mem hpair) ih
  · refine .top ?_
    have : (NodeTable.ofList nodes)[k]? = none := by
      rw [Option.eq_none_iff_forall_ne_some]
      intro n hn
      obtain ⟨hmem, rfl⟩ := (NodeTable.lookup_ofList_eq_some h.distinct).1 hn
      exact hk (NodeTable.mem_depthFirst.1 (h.mem_depthFirst.2 (List.mem_map_of_mem hmem)))
    simp [NodeTable.above?, h.lookup_table_none, this]

theorem treelike : (s.table none).Treelike where
  linked p k := by
    have hpairs : (ownerships nodes).Nodup := List.Nodup.of_map _ h.once
    rw [h.holdings_table, h.above?_table, hpairs.count]
    simp only [owner_eq_some h.once]
  grounded _ := h.grounded
  keyed k n hn := by
    rw [h.lookup_table_none, Option.map_eq_some_iff] at hn
    obtain ⟨m, hm, rfl⟩ := hn
    have hid := ((NodeTable.lookup_ofList_eq_some h.distinct).1 hm).2
    split
    · exact id_link.trans hid
    · exact id_link.trans hid

/-- Only the root is left without a parent. -/
theorem isSome_parent (hn : n ∈ s.nodes) (hroot : n.id ≠ root) : n.parent.isSome := by
  rw [h.inOrder] at hn
  obtain ⟨m, hm, rfl⟩ := List.mem_map.1 hn
  obtain ⟨id, -, hid⟩ := List.mem_filterMap.1 hm
  have hmem := ((NodeTable.lookup_ofList_eq_some h.distinct).1 hid).1
  rw [id_link] at hroot
  obtain ⟨p, hp⟩ := Option.ne_none_iff_exists'.1
    (mt (h.owner_eq_none (List.mem_map_of_mem hmem)).1 hroot)
  rw [parent_link, hp]
  rfl

theorem isTree : s.IsTree where
  distinct := h.distinct_nodes
  treelike := h.treelike
  below n hn := by
    refine h.isSome_parent (List.mem_cons_of_mem _ hn) fun hid => ?_
    have hd := h.distinct_nodes
    rw [Subtree.nodes, List.map_cons, List.nodup_cons, h.id_root, ← hid] at hd
    exact hd.1 (List.mem_map_of_mem hn)
  ordered := by
    -- Links do not matter to the order: the walk looks at what nodes own only.
    rw [h.ids_nodes, h.id_root]
    refine (NodeTable.depthFirst_congr fun k _ => ?_).symm
    rw [h.lookup_table_none, Option.map_map]
    congr 1
    funext n
    by_cases hk : k = root
    · simp only [Function.comp_apply, if_pos hk]
      exact owned_link
    · simp [hk]

end Grown

/-- Nodes in any order, if they give a subtree at all, give a tree. -/
theorem isTree_ofList (h : ofList nodes = .ok s) : s.IsTree := by
  obtain ⟨root, hgrown⟩ := ofList_eq_ok.1 h
  exact hgrown.isTree

/-- The nodes of a subtree are those that it was put together from, with other nodes above them. -/
theorem exists_of_mem_ofList (h : ofList nodes = .ok s) {n : Node} (hn : n ∈ s.nodes) :
    ∃ n' ∈ nodes, n = { n' with parent := n.parent } := by
  obtain ⟨root, hgrown⟩ := ofList_eq_ok.1 h
  rw [hgrown.inOrder] at hn
  obtain ⟨n', hn', rfl⟩ := List.mem_map.1 hn
  obtain ⟨id, -, hid⟩ := List.mem_filterMap.1 hn'
  exact ⟨n', ((NodeTable.lookup_ofList_eq_some hgrown.distinct).1 hid).1, by rw [link_eq]⟩

/-- A node that owns nothing is a subtree. -/
theorem single_of_leaf {n : Node} (h : n.owned = []) : single n = .ok ⟨n, []⟩ := by
  have hd : ([n].map Node.id).Nodup := List.nodup_singleton n.id
  have htable : (NodeTable.ofList [n])[n.id]? = some n :=
    (NodeTable.lookup_ofList_eq_some hd).2 ⟨List.mem_cons_self, rfl⟩
  have hpairs : ownerships [n] = [] := by simp [ownerships, h]
  rw [single, ofList_eq_ok]
  refine ⟨n.id, hd, ?_, ?_, ?_, ?_, ?_⟩
  · simp [hpairs]
  · simp [hpairs]
  · simp [hpairs]
  · rw [NodeTable.depthFirst_of_leaf htable h]
    rfl
  · rw [NodeTable.depthFirst_of_leaf htable h]
    simp [htable, hpairs, link, nodes]

end Subtree

end DeltaForest
