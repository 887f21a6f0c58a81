import DeltaForest.Proofs.Collect

/-!
# What the steps of an edit make of a table

Changes of a forest are made of a few steps: a node is edited (`NodeTable.edited`), in particular
it gets other nodes in a seat (`NodeTable.withSeated`) or another link (`NodeTable.adopted`), a
subtree comes (`NodeTable.planted`) or goes (`NodeTable.felled`). Of a table four things matter:
which links there are, who holds whom, which nodes are there with which targets, and that every
node stands under its own id. Here is what each step does to each of the four.
-/

namespace DeltaForest

namespace NodeTable

variable {t : NodeTable} {k p owner root : NodeId} {s s' : Seat} {ids : List NodeId}

/-! ## Single nodes -/

/-- A table with a registered node edited and pruned. -/
def edited (t : NodeTable) (id : NodeId) (step : Node → Node) : NodeTable :=
  match t[id]? with
  | some n => t.insert id (step n).prune
  | none => t

/-- Editing a node changes what is found under its id, pruned, and nothing else. -/
theorem lookup_edited {id : NodeId} {step : Node → Node} : (t.edited id step)[k]? =
    t[k]?.map fun n => if id = k then (step n).prune else n := by
  rw [edited]
  cases hn : t[id]? with
  | none =>
    -- Where nobody is registered, nothing is edited.
    by_cases hk : id = k
    · simp [← hk, hn]
    · simp [hk]
  | some n =>
    simp only [lookup_insert]
    by_cases hk : id = k
    · simp [← hk, hn]
    · simp [hk]

/-- Editing a node does not change which nodes there are. -/
@[simp] theorem mem_edited {id : NodeId} {step : Node → Node} : k ∈ t.edited id step ↔ k ∈ t := by
  rw [mem_iff_exists, mem_iff_exists, lookup_edited]
  simp

/-! ## Seats -/

/-- The nodes in a seat of a node. -/
def seated (t : NodeTable) (owner : NodeId) (s : Seat) : List NodeId :=
  (t[owner]?.map (·.seated s)).getD []

/-- A table with other nodes in a seat of a registered node. -/
def withSeated (t : NodeTable) (owner : NodeId) (s : Seat) (ids : List NodeId) : NodeTable :=
  t.edited owner (·.withSeated s ids)

/-- Who sits in a seat of a node that is there can be read off the node. -/
theorem seated_eq {n : Node} (h : t[owner]? = some n) : t.seated owner s = n.seated s := by
  simp [seated, h]

/-- Who has somebody seated is registered. -/
theorem mem_of_mem_seated (h : k ∈ t.seated owner s) : owner ∈ t := by
  rw [seated] at h
  cases hn : t[owner]? with
  | none => simp [hn] at h
  | some n => exact mem_of_lookup hn

/-- Seating others changes their owner only. -/
theorem lookup_withSeated : (t.withSeated owner s ids)[k]? =
    t[k]?.map fun n => if owner = k then (n.withSeated s ids).prune else n :=
  lookup_edited

/-- In the seat there are the others now, and in any other seat are those that have been there. -/
theorem seated_withSeated (h : owner ∈ t) : (t.withSeated owner s ids).seated p s' =
    if owner = p ∧ s = s' then ids else t.seated p s' := by
  rw [seated, lookup_withSeated]
  by_cases hp : owner = p
  · obtain ⟨n, hn⟩ := mem_iff_exists.1 h
    rw [← hp, seated, hn]
    simp [Node.seated_withSeated]
  · simp [hp, seated]

@[simp] theorem mem_withSeated : k ∈ t.withSeated owner s ids ↔ k ∈ t := mem_edited

@[simp] theorem above?_withSeated : (t.withSeated owner s ids).above? k = t.above? k := by
  rw [above?, lookup_withSeated, above?]
  cases t[k]? with
  | none => rfl
  | some n => by_cases hk : owner = k <;> simp [hk]

@[simp] theorem targets?_withSeated : (t.withSeated owner s ids).targets? k = t.targets? k := by
  rw [targets?, lookup_withSeated, targets?]
  cases t[k]? with
  | none => rfl
  | some n => by_cases hk : owner = k <;> simp [hk]

/-- The owner holds of everybody what it has held, less those who have sat there, plus the
    others. -/
theorem holdings_withSeated (s : Seat) (ids : List NodeId) (h : owner ∈ t) (p k : NodeId) :
    (t.withSeated owner s ids).holdings p k +
        (if p = owner then (t.seated owner s).count k else 0) =
      t.holdings p k + if p = owner then ids.count k else 0 := by
  rw [holdings, lookup_withSeated, holdings]
  -- Only the owner holds anything through the seat.
  by_cases hp : p = owner
  · obtain ⟨n, hn⟩ := mem_iff_exists.1 h
    rw [hp, seated, hn]
    simpa using n.count_owned_withSeated s ids k
  · simp [hp, Ne.symm hp]

/-- Nodes are still found by their ids when others are seated. -/
theorem Keyed.withSeated (h : t.Keyed) : (t.withSeated owner s ids).Keyed := by
  intro k n hn
  rw [lookup_withSeated] at hn
  obtain ⟨m, hm, rfl⟩ := Option.map_eq_some_iff.1 hn
  split
  · simpa using h k m hm
  · exact h k m hm

/-- What is below a node is as before if the owner of the seat is not among it. -/
theorem depthFirst_withSeated (h : owner ∉ t.depthFirst root) :
    (t.withSeated owner s ids).depthFirst root = t.depthFirst root :=
  depthFirst_congr fun k hk => by
    rw [lookup_withSeated, Option.map_map]
    -- The walk never comes to the owner.
    have : owner ≠ k := fun heq => h (heq ▸ hk)
    simp [this, Function.comp_def]

/-! ## Links -/

/-- A table with another link of a registered node. -/
def adopted (t : NodeTable) (id parent : NodeId) : NodeTable :=
  match t[id]? with
  | some n => t.insert id { n with parent := some parent }
  | none => t

variable {id parent : NodeId}

/-- A new parent is noted on the node only. -/
theorem lookup_adopted : (t.adopted id parent)[k]? =
    t[k]?.map fun n => if id = k then { n with parent := some parent } else n := by
  rw [adopted]
  cases hn : t[id]? with
  | none =>
    by_cases hk : id = k
    · simp [← hk, hn]
    · simp [hk]
  | some n =>
    simp only [lookup_insert]
    by_cases hk : id = k
    · simp [← hk, hn]
    · simp [hk]

/-- A node that is there is below its new parent, and the others are below theirs. -/
theorem above?_adopted (h : id ∈ t) :
    (t.adopted id parent).above? k = if k = id then some parent else t.above? k := by
  rw [above?, lookup_adopted, above?]
  by_cases hk : k = id
  · obtain ⟨n, hn⟩ := mem_iff_exists.1 h
    simp [hk, hn]
  · simp [hk, Ne.symm hk]

@[simp] theorem mem_adopted : k ∈ t.adopted id parent ↔ k ∈ t := by
  rw [mem_iff_exists, mem_iff_exists, lookup_adopted]
  simp

@[simp] theorem holdings_adopted : (t.adopted id parent).holdings p k = t.holdings p k := by
  rw [holdings, lookup_adopted, holdings]
  cases t[p]? with
  | none => rfl
  | some n => by_cases hp : id = p <;> simp [hp, Node.owned]

@[simp] theorem targets?_adopted : (t.adopted id parent).targets? k = t.targets? k := by
  rw [targets?, lookup_adopted, targets?]
  cases t[k]? with
  | none => rfl
  | some n => by_cases hk : id = k <;> simp [hk, Node.targets]

/-- Nodes are still found by their ids when one has got another parent. -/
theorem Keyed.adopted (h : t.Keyed) : (t.adopted id parent).Keyed := by
  intro k n hn
  rw [lookup_adopted] at hn
  obtain ⟨m, hm, rfl⟩ := Option.map_eq_some_iff.1 hn
  split
  · exact h k m hm
  · exact h k m hm

/-! ## Subtrees that go -/

/-- A table without a node and everything below it. -/
def felled (t : NodeTable) (root : NodeId) : NodeTable :=
  (t.depthFirst root).foldl (fun t id => t.erase id) t

/-- What is not below the node that goes is found as before. -/
theorem lookup_felled :
    (t.felled root)[k]? = if k ∈ t.depthFirst root then none else t[k]? :=
  lookup_eraseAll _ _ _

/-- Exactly the nodes below the one that goes are gone. -/
theorem mem_felled : k ∈ t.felled root ↔ k ∈ t ∧ k ∉ t.depthFirst root := by
  rw [mem_iff_exists, mem_iff_exists, lookup_felled]
  split
  · next h => simp [h]
  · next h => simp [h]

/-- The nodes that are left are below whom they have been below. -/
theorem above?_felled :
    (t.felled root).above? k = if k ∈ t.depthFirst root then none else t.above? k := by
  rw [above?, lookup_felled]
  split <;> rfl

/-- The nodes that are left hold what they have held. -/
theorem holdings_felled :
    (t.felled root).holdings p k = if p ∈ t.depthFirst root then 0 else t.holdings p k := by
  rw [holdings, lookup_felled]
  split <;> rfl

theorem targets?_felled :
    (t.felled root).targets? k = if k ∈ t.depthFirst root then none else t.targets? k := by
  rw [targets?, lookup_felled]
  split <;> rfl

/-- Nodes are still found by their ids when others have gone. -/
theorem Keyed.felled (h : t.Keyed) : (t.felled root).Keyed := by
  intro k n hn
  rw [lookup_felled] at hn
  split at hn
  · simp at hn
  · exact h k n hn

/-! ## Subtrees that come -/

/-- A table with the nodes of a subtree. -/
def planted (t : NodeTable) (tree : Subtree) (parent : Option NodeId) : NodeTable :=
  (⟨{ tree.root with parent := parent }, tree.descendants⟩ : Subtree).nodes.foldl
    (fun t n => t.insert n.id n) t

/-- No node of a subtree is registered. -/
def Vacant (t : NodeTable) (tree : Subtree) : Prop := ∀ n ∈ tree.nodes, n.id ∉ t

variable {tree : Subtree} {above : Option NodeId}

/-- The check for vacancy says whether any id of the subtree is taken. -/
theorem checkVacant_eq_ok : t.checkVacant tree = .ok () ↔ t.Vacant tree := by
  rw [checkVacant]
  split
  · next n hn =>
    refine iff_of_false (by simp) fun hv => ?_
    -- The node that is found is in the way.
    have htaken : n.id ∈ t := by simpa using List.find?_some hn
    exact hv n (List.mem_of_find?_eq_some hn) htaken
  · next hnone =>
    refine iff_of_true rfl fun n hn htaken => ?_
    exact List.find?_eq_none.1 hnone n hn (by simpa using htaken)

/-- The nodes of a subtree that comes are found first, and the others behind them. -/
theorem lookup_planted :
    (t.planted tree above)[k]? = (tree.table above)[k]?.or t[k]? :=
  lookup_insertAll_eq_or _ _ _

/-- To which parent a subtree is linked matters to its root only. -/
theorem lookup_table_of_ne (hd : (tree.nodes.map Node.id).Nodup) (hk : k ≠ tree.root.id) :
    (tree.table above)[k]? = (tree.table none)[k]? := by
  simp only [Subtree.lookup_table hd, hk, if_false]

/-- The root of a subtree is linked to the parent. -/
theorem lookup_table_root (hd : (tree.nodes.map Node.id).Nodup) :
    (tree.table above)[tree.root.id]? = some { tree.root with parent := above } := by
  have hroot : (ofList tree.nodes)[tree.root.id]? = some tree.root :=
    (lookup_ofList_eq_some hd).2 ⟨List.mem_cons_self, rfl⟩
  simp [Subtree.lookup_table hd, hroot]

/-- The table of a subtree has its nodes and no others. -/
theorem mem_table (hd : (tree.nodes.map Node.id).Nodup) :
    k ∈ tree.table above ↔ k ∈ tree.nodes.map Node.id := by
  rw [← Std.ExtTreeMap.isSome_getElem?_iff_mem, Subtree.lookup_table hd, Option.isSome_map,
    Option.isSome_iff_exists, List.mem_map]
  exact exists_congr fun n => lookup_ofList_eq_some hd

/-- Where there is room for a subtree none of its nodes is there. -/
theorem Vacant.notMem (hv : t.Vacant tree) (hk : k ∈ tree.nodes.map Node.id) : k ∉ t := by
  obtain ⟨n, hn, rfl⟩ := List.mem_map.1 hk
  exact hv n hn

theorem Vacant.lookup (hv : t.Vacant tree) (hk : k ∈ tree.nodes.map Node.id) : t[k]? = none :=
  notMem_iff.1 (hv.notMem hk)

theorem Vacant.root_notMem (hv : t.Vacant tree) : tree.root.id ∉ t := hv _ List.mem_cons_self

/-- Where there are fewer nodes there is room as well. -/
theorem Vacant.mono {t' : NodeTable} (hv : t.Vacant tree) (hsub : ∀ k, k ∈ t' → k ∈ t) :
    t'.Vacant tree := fun n hn h => hv n hn (hsub _ h)

section Planted

variable (hv : t.Vacant tree) (hd : (tree.nodes.map Node.id).Nodup)

include hv hd

/-- The root that comes is below its new parent, and the others are below whom they have been
    below. -/
theorem above?_planted : (t.planted tree above).above? k =
    if k = tree.root.id then above else (t.above? k).or ((tree.table none).above? k) := by
  rw [above?, lookup_planted]
  by_cases hk : k = tree.root.id
  · simp [hk, lookup_table_root hd]
  · rw [lookup_table_of_ne hd hk, if_neg hk, above?, above?]
    -- A node of the subtree was not there before.
    cases hn : (tree.table none)[k]? with
    | none => simp
    | some n => simp [hv.lookup ((mem_table hd).1 (mem_of_lookup hn))]

/-- Those who were there and those who come hold what they have held. -/
theorem holdings_planted : (t.planted tree above).holdings p k =
    t.holdings p k + (tree.table none).holdings p k := by
  rw [holdings, lookup_planted, holdings, holdings]
  by_cases hp : p = tree.root.id
  · -- The root was not there before, so it held nothing.
    have hfree : t[tree.root.id]? = none := hv.lookup (List.mem_map_of_mem List.mem_cons_self)
    simp [hp, lookup_table_root hd, hfree, Node.owned]
  · rw [lookup_table_of_ne hd hp]
    cases hn : (tree.table none)[p]? with
    | none => simp
    | some n => simp [hv.lookup ((mem_table hd).1 (mem_of_lookup hn))]

omit hv in
/-- Those who come refer to what they have referred to, and so do those who were there. -/
theorem targets?_planted : (t.planted tree above).targets? k =
    ((tree.table none).targets? k).or (t.targets? k) := by
  rw [targets?, lookup_planted, targets?, targets?]
  by_cases hk : k = tree.root.id
  · simp [hk, lookup_table_root hd, Node.targets]
  · rw [lookup_table_of_ne hd hk]
    cases (tree.table none)[k]? <;> rfl

omit hv in
/-- Nodes are still found by their ids when a subtree has come. -/
theorem Keyed.planted (h : t.Keyed) (htree : (tree.table none).Keyed) :
    (t.planted tree above).Keyed := by
  intro k n hn
  rw [lookup_planted, Option.or_eq_some_iff] at hn
  -- What is found comes from the subtree or was there before.
  rcases hn with hn | ⟨-, hn⟩
  · by_cases hk : k = tree.root.id
    · rw [hk, lookup_table_root hd, Option.some.injEq] at hn
      rw [hk, ← hn]
    · exact htree k n (by rwa [lookup_table_of_ne hd hk] at hn)
  · exact h k n hn

omit hv in
/-- After a subtree has come there are its nodes and those that were there. -/
theorem mem_planted :
    k ∈ t.planted tree above ↔ k ∈ tree.nodes.map Node.id ∨ k ∈ t := by
  have htable : k ∈ tree.table above ↔ _ := mem_table hd
  rw [← htable]
  simp only [← Std.ExtTreeMap.isSome_getElem?_iff_mem, lookup_planted, Option.isSome_or,
    Bool.or_eq_true]

/-- In the seats of a node that was there nobody has been seated yet. -/
theorem seated_planted (hp : p ∈ t) : (t.planted tree above).seated p s = t.seated p s := by
  rw [seated, lookup_planted, seated]
  cases hn : (tree.table above)[p]? with
  | none => simp
  | some n => exact absurd hp (hv.notMem ((mem_table hd).1 (mem_of_lookup hn)))

end Planted

end NodeTable

end DeltaForest
