import DeltaForest.Proofs.Tree

/-!
# Subtrees taken out of a table

What `NodeTable.collect` takes out of a table that is made of trees is a tree: the node with all
that is below it, in the order of a walk.
-/

namespace DeltaForest

namespace NodeTable

variable {t : NodeTable} {s : Subtree} {root k : NodeId}

theorem get_eq_ok {n : Node} : t.get k = .ok n ↔ t[k]? = some n := by
  rw [get]
  split <;> simp_all

/-- Nodes are found for all of some ids if each of them is there. -/
theorem mapM_get_eq_ok {ids : List NodeId} {nodes : List Node} :
    ids.mapM t.get = .ok nodes ↔ ids.map (fun id => t[id]?) = nodes.map some := by
  rw [mapM_eq_ok, ← List.forall₂_eq_eq_eq, List.forall₂_map_left_iff, List.forall₂_map_right_iff]
  simp only [get_eq_ok]

/-- A subtree that is taken out of a table has the nodes below its root, in order. -/
theorem collect_eq_ok : t.collect root = .ok s ↔
    (t.depthFirst root).map (fun id => t[id]?) = s.nodes.map some := by
  rw [collect, bind_eq_ok, ← mapM_get_eq_ok]
  constructor
  · rintro ⟨nodes, hnodes, h⟩
    cases hs : Subtree.ofOrdered? nodes with
    | none => simp [hs] at h
    | some s' =>
      obtain rfl : s' = s := by simpa [hs] using h
      rwa [Subtree.ofOrdered?_eq_some.1 hs]
  · intro h
    exact ⟨s.nodes, h, by rw [Subtree.ofOrdered?_eq_some.2 rfl]; rfl⟩

/-- A node that owns nothing is taken out alone. -/
theorem collect_of_leaf {n : Node} (hn : t[root]? = some n) (h : n.owned = []) :
    t.collect root = .ok ⟨n, []⟩ := by
  rw [collect_eq_ok, depthFirst_of_leaf hn h]
  simp [hn, Subtree.nodes]

variable (ht : t.Keyed) (hs : t.collect root = .ok s)

include ht hs

/-- The nodes of a subtree come in the order in which they are walked. -/
theorem ids_collect : s.nodes.map Node.id = t.depthFirst root := by
  have h := collect_eq_ok.1 hs
  generalize t.depthFirst root = ids, s.nodes = nodes at h
  induction ids generalizing nodes with
  | nil => cases nodes <;> simp_all
  | cons id ids ih =>
    cases nodes with
    | nil => simp at h
    | cons n nodes =>
      rw [List.map_cons, List.map_cons] at h
      obtain ⟨hn, h⟩ := List.cons.inj h
      rw [List.map_cons, ht id n hn, ih nodes h]

theorem distinct_collect : (s.nodes.map Node.id).Nodup :=
  ids_collect ht hs ▸ nodup_depthFirst

/-- The root of a subtree is the node that it has been collected for. -/
theorem id_root_collect : s.root.id = root := by
  obtain ⟨rest, hrest⟩ := depthFirst_eq_cons t root
  have hids := ids_collect ht hs
  rw [hrest, Subtree.nodes, List.map_cons] at hids
  exact (List.cons.inj hids).1

/-- The nodes of the subtree are those of the table. -/
theorem lookup_collect :
    (ofList s.nodes)[k]? = if k ∈ t.depthFirst root then t[k]? else none := by
  ext n
  rw [lookup_ofList_eq_some (distinct_collect ht hs)]
  have hlist := collect_eq_ok.1 hs
  constructor
  · -- What has been collected comes from the look-up of an id that the walk meets.
    rintro ⟨hn, rfl⟩
    have hmem : some n ∈ (t.depthFirst root).map fun id => t[id]? :=
      hlist ▸ List.mem_map_of_mem hn
    obtain ⟨id, hid, hn⟩ := List.mem_map.1 hmem
    rw [ht id n hn, if_pos hid, hn]
  · intro h
    split at h
    · -- Each id that the walk meets is looked up, and its node is what was collected.
      next hk =>
      have hmem : some n ∈ s.nodes.map some := hlist ▸ List.mem_map.2 ⟨k, hk, h⟩
      obtain ⟨m, hm, hmn⟩ := List.mem_map.1 hmem
      obtain rfl := Option.some.inj hmn
      exact ⟨hm, ht k m h⟩
    · simp at h

/-- What is taken out is found in the table, under an id that the walk meets. -/
theorem lookup_of_mem_collect {n : Node} (hn : n ∈ s.nodes) :
    n.id ∈ t.depthFirst root ∧ t[n.id]? = some n := by
  have hid : n.id ∈ t.depthFirst root := ids_collect ht hs ▸ List.mem_map_of_mem hn
  have hlookup := (lookup_ofList_eq_some (distinct_collect ht hs)).2 ⟨hn, rfl⟩
  rw [lookup_collect ht hs, if_pos hid] at hlookup
  exact ⟨hid, hlookup⟩

/-- In the table of a subtree its nodes are as they were, but for the link of the root. -/
theorem lookup_table_collect : (s.table none)[k]? =
    if k = root then t[k]?.map fun n => { n with parent := none }
    else if k ∈ t.depthFirst root then t[k]? else none := by
  rw [Subtree.lookup_table (distinct_collect ht hs), lookup_collect ht hs, id_root_collect ht hs]
  by_cases hk : k = root
  · have hmem : root ∈ t.depthFirst root := mem_depthFirst.2 .self
    simp only [hk, hmem, if_true]
  · simp [hk]

/-- The nodes of a subtree hold what they have held. -/
theorem holdings_table_collect (p : NodeId) :
    (s.table none).holdings p k = if p ∈ t.depthFirst root then t.holdings p k else 0 := by
  rw [holdings, lookup_table_collect ht hs, holdings]
  by_cases hp : p = root
  · have hmem : root ∈ t.depthFirst root := mem_depthFirst.2 .self
    rw [if_pos hp, hp, if_pos hmem, Option.map_map]
    rfl
  · rw [if_neg hp]
    split <;> rfl

/-- The nodes of a subtree are below whom they have been below, and its root is below nobody. -/
theorem above?_table_collect :
    (s.table none).above? k =
      if k ≠ root ∧ k ∈ t.depthFirst root then t.above? k else none := by
  rw [above?, lookup_table_collect ht hs, above?]
  by_cases hk : k = root
  · rw [if_pos hk, if_neg (by simp [hk])]
    cases t[k]? <;> rfl
  · rw [if_neg hk]
    simp only [ne_eq, hk, not_false_eq_true, true_and]
    split <;> rfl

theorem keyed_table_collect : (s.table none).Keyed := by
  intro k n hn
  rw [lookup_table_collect ht hs] at hn
  split at hn
  · obtain ⟨m, hm, rfl⟩ := Option.map_eq_some_iff.1 hn
    exact ht k m hm
  split at hn
  · exact ht k n hn
  · simp at hn

omit ht in
/-- What is collected from a tree is a tree. -/
theorem treelike_table_collect (ht : t.Treelike) : (s.table none).Treelike where
  linked p k := by
    rw [holdings_table_collect ht.keyed hs, above?_table_collect ht.keyed hs, ht.linked]
    by_cases hp : t.above? k = some p
    · -- Who is collected is the root or has a parent that is collected.
      have hmem : k ∈ t.depthFirst root ↔ p ∈ t.depthFirst root ∨ k = root := by
        rw [ht.mem_depthFirst, ht.mem_depthFirst, above_iff]
        simp [hp, or_comm]
      by_cases hk : k = root
      · have := ht.above_notMem_depthFirst (hk ▸ hp)
        simp [hk, this]
      · simp [hk, hmem, hp]
    · simp only [hp, if_false, ite_self]
      split <;> simp
  grounded k := (ht.grounded k).mono fun k p hp => by
    rw [above?_table_collect ht.keyed hs] at hp
    split at hp
    · exact hp
    · simp at hp
  keyed := keyed_table_collect ht.keyed hs

omit ht in
/-- What is taken out of trees is a tree. -/
theorem isTree_collect (ht : t.Treelike) : s.IsTree where
  distinct := distinct_collect ht.keyed hs
  treelike := treelike_table_collect hs ht
  below n hn := by
    have hd := distinct_collect ht.keyed hs
    have hroot := id_root_collect ht.keyed hs
    obtain ⟨hk, hlookup⟩ := lookup_of_mem_collect ht.keyed hs (List.mem_cons_of_mem _ hn)
    -- Apart from the root, what is collected was reached from above.
    rw [ht.mem_depthFirst, above_iff] at hk
    rcases hk with hk | ⟨p, hp, -⟩
    · rw [Subtree.nodes, List.map_cons, List.nodup_cons, hroot, ← hk] at hd
      exact absurd (List.mem_map_of_mem hn) hd.1
    · rw [above?_eq hlookup] at hp
      rw [hp]
      rfl
  ordered := by
    rw [ids_collect ht.keyed hs, id_root_collect ht.keyed hs]
    refine (depthFirst_congr fun k hk => ?_).symm
    rw [lookup_table_collect ht.keyed hs]
    split
    · rw [Option.map_map]
      rfl
    · rfl

end NodeTable

end DeltaForest
