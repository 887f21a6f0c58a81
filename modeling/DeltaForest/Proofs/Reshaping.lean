import DeltaForest.Proofs.Planned

/-!
# Reshaping

Changes of partitions, of children and of annotations differ in what is checked and in what they
say, but there are only seven ways in which a change gives a forest another shape (`Reshaping`).
All other changes edit single nodes and leave them where they are.

What a reshaping needs of a table is `Reshaping.Fits`; a change that fits has it
(`fits_of_reshaping`). It turns trees into trees (`treelike_outcome`), and the nodes at the top
change with the partitions only (`isTop_outcome`).
-/

namespace DeltaForest

namespace NodeTable

variable {t t' : NodeTable} {k id old : NodeId} {p target source : Place Seat} {tree : Subtree}

/-! ## Nodes at the top -/

/-- A node without one above. -/
def IsTop (t : NodeTable) (k : NodeId) : Prop := k ∈ t ∧ t.above? k = none

theorem isTop_iff : t.IsTop k ↔ ∃ n, t[k]? = some n ∧ n.parent = none := by
  rw [IsTop, mem_iff_exists]
  constructor
  · rintro ⟨⟨n, hn⟩, ha⟩
    exact ⟨n, hn, by rwa [above?_eq hn] at ha⟩
  · rintro ⟨n, hn, hp⟩
    exact ⟨⟨n, hn⟩, by rwa [above?_eq hn]⟩

/-- In a subtree only the root is at the top. -/
theorem above?_table_ne_none (htree : tree.IsTree) (hk : k ∈ tree.nodes.map Node.id)
    (hroot : k ≠ tree.root.id) : (tree.table none).above? k ≠ none := by
  obtain ⟨n, hn, rfl⟩ := List.mem_map.1 hk
  have hlookup : (tree.table none)[n.id]? = some n := by
    rw [Subtree.lookup_table htree.distinct,
      (lookup_ofList_eq_some htree.distinct).2 ⟨hn, rfl⟩]
    simp [hroot]
  rw [above?_eq hlookup]
  rcases List.mem_cons.1 hn with rfl | hn
  · exact absurd rfl hroot
  · exact Option.isSome_iff_ne_none.1 (htree.below n hn)

theorem isTop_planted {parent : Option NodeId} (htree : tree.IsTree) (hv : t.Vacant tree) :
    (t.planted tree parent).IsTop k ↔ (k = tree.root.id ∧ parent = none) ∨ t.IsTop k := by
  rw [IsTop, mem_planted htree.distinct, above?_planted hv htree.distinct, IsTop]
  by_cases hk : k = tree.root.id
  · have hmem : tree.root.id ∈ tree.nodes.map Node.id := List.mem_map_of_mem List.mem_cons_self
    simp [hk, hmem, hv.root_notMem]
  · simp only [hk, if_false, false_and, false_or, Option.or_eq_none_iff]
    constructor
    · -- A node of the subtree other than its root has one above.
      rintro ⟨hmem | hmem, hu, hu'⟩
      · exact absurd hu' (above?_table_ne_none htree hmem hk)
      · exact ⟨hmem, hu⟩
    · rintro ⟨hmem, hu⟩
      refine ⟨.inr hmem, hu, ?_⟩
      cases ha : (tree.table none).above? k with
      | none => rfl
      | some q => exact absurd hmem (hv.notMem_of_above? htree ha).1

theorem isTop_inserted : (t.inserted p id).IsTop k ↔ t.IsTop k := by
  rw [IsTop, mem_inserted, above?_inserted, IsTop]

theorem isTop_attached (htree : tree.IsTree) (hv : t.Vacant tree) :
    (t.attached p tree).IsTop k ↔ t.IsTop k := by
  rw [attached, isTop_inserted, isTop_planted htree hv]
  simp

/-- A subtree that goes takes no other top with it. The table `t'` that it goes from may differ
    from `t` in who holds whom. -/
theorem isTop_felled (ht : t.Treelike) (hmem : ∀ k, k ∈ t' ↔ k ∈ t)
    (hup : ∀ k, t'.above? k = t.above? k) (hgone : t'.depthFirst old = t.depthFirst old) :
    (t'.felled old).IsTop k ↔ k ≠ old ∧ t.IsTop k := by
  rw [IsTop, mem_felled, above?_felled, hgone, hmem, hup, IsTop]
  by_cases hk : k ∈ t.depthFirst old
  · -- What goes is the old node itself or has one above, so it is no other top.
    have hcase := hk
    rw [ht.mem_depthFirst, above_iff] at hcase
    simp only [hk, not_true_eq_false, and_false, false_and, false_iff, not_and]
    rintro hne - hu
    rcases hcase with hcase | ⟨q, hq, -⟩
    · exact hne hcase
    · simp [hu] at hq
  · have : k ≠ old := fun heq => hk (heq ▸ NodeTable.mem_depthFirst.2 .self)
    simp [hk, this]

/-- What has a place in a seat is not at the top. -/
theorem Treelike.not_isTop_of_at? (ht : t.Treelike) (hp : t.at? p = some id) : ¬t.IsTop id := by
  rintro ⟨-, hu⟩
  simp [ht.above?_of_at? hp] at hu

theorem isTop_detached (ht : t.Treelike) (hp : t.at? p = some old) :
    (t.detached p old).IsTop k ↔ t.IsTop k := by
  rw [detached, isTop_felled ht (fun _ => mem_removed) (fun _ => above?_removed)
    (depthFirst_withSeated (ht.owner_notMem_depthFirst hp))]
  exact and_iff_right_of_imp fun h heq => ht.not_isTop_of_at? hp (heq ▸ h)

theorem isTop_exchanged (ht : t.Treelike) (htree : tree.IsTree) (hv : t.Vacant tree)
    (hp : t.at? p = some old) : (t.exchanged p tree old).IsTop k ↔ t.IsTop k := by
  have hv' : ((t.replaced p tree.root.id).felled old).Vacant tree :=
    hv.mono fun k hk => mem_replaced.1 (mem_felled.1 hk).1
  rw [exchanged, isTop_planted htree hv', isTop_felled ht (fun _ => mem_replaced)
    (fun _ => above?_replaced) (depthFirst_withSeated (ht.owner_notMem_depthFirst hp))]
  simp only [reduceCtorEq, and_false, false_or]
  exact and_iff_right_of_imp fun h heq => ht.not_isTop_of_at? hp (heq ▸ h)

theorem isTop_adopted {above : NodeId} (hid : id ∈ t) :
    (t.adopted id above).IsTop k ↔ k ≠ id ∧ t.IsTop k := by
  rw [IsTop, mem_adopted, above?_adopted hid, IsTop]
  by_cases hk : k = id <;> simp [hk]

theorem isTop_moved (ht : t.Treelike) (hs : t.at? source = some id) :
    (t.moved target source id).IsTop k ↔ t.IsTop k := by
  have hid : id ∈ (t.removed source).inserted target id :=
    mem_inserted.2 (mem_removed.2 (ht.mem_of_above? (ht.above?_of_at? hs)).1)
  rw [moved, isTop_adopted hid, isTop_inserted, IsTop, mem_removed, above?_removed]
  exact and_iff_right_of_imp fun h heq => ht.not_isTop_of_at? hs (heq ▸ h)

theorem isTop_movedAndReplaced (ht : t.Treelike) (htarget : t.at? target = some old)
    (hs : t.at? source = some id) (hold : ¬Above t.above? old id) :
    (t.movedAndReplaced target source id old).IsTop k ↔ t.IsTop k := by
  rw [movedAndReplaced, isTop_adopted (ht.mem_felled_of_move htarget hs hold),
    isTop_felled ht (fun _ => mem_removed.trans mem_replaced)
      (fun _ => above?_removed.trans above?_replaced) (ht.depthFirst_of_move htarget hs hold)]
  constructor
  · exact fun h => h.2.2
  · refine fun h => ⟨fun heq => ?_, fun heq => ?_, h⟩
    · exact ht.not_isTop_of_at? hs (heq ▸ h)
    · exact ht.not_isTop_of_at? htarget (heq ▸ h)

theorem landing_seated {target source : Place Seat} {id : NodeId} (hs : t.at? source = some id)
    (h : Landing (source.owner = target.owner ∧ source.feature = target.feature)
      (t.seated target.owner target.feature) target.index) :
    target.index ≤ ((t.removed source).seated target.owner target.feature).length := by
  rw [removed, seated_withSeated (mem_of_at? hs)]
  split
  · next hsame =>
    have hi := (List.getElem?_eq_some_iff.1 hs).1
    have hlt := h.1 hsame
    rw [← hsame.1, ← hsame.2] at hlt
    rw [List.length_eraseIdx_of_lt hi]
    omega
  · next hother => exact h.2 hother

end NodeTable

/-! ## The seven ways -/

/-- A way to give a forest another shape. -/
inductive Reshaping
  /-- A partition comes. -/
  | plant (tree : Subtree)
  /-- A partition goes. -/
  | fell (root : NodeId)
  | attach (p : Place Seat) (tree : Subtree)
  | detach (p : Place Seat) (old : NodeId)
  | exchange (p : Place Seat) (tree : Subtree) (old : NodeId)
  | move (target source : Place Seat) (id : NodeId)
  | moveAndReplace (target source : Place Seat) (id old : NodeId)

namespace Reshaping

/-- What a reshaping makes of a table. -/
def outcome (t : NodeTable) : Reshaping → NodeTable
  | plant tree => t.planted tree none
  | fell root => t.felled root
  | attach p tree => t.attached p tree
  | detach p old => t.detached p old
  | exchange p tree old => t.exchanged p tree old
  | move target source id => t.moved target source id
  | moveAndReplace target source id old => t.movedAndReplaced target source id old

/-- The subtrees that come. -/
def incoming : Reshaping → List Subtree
  | plant tree | attach _ tree | exchange _ tree _ => [tree]
  | _ => []

/-- What a reshaping needs of a table. -/
def Fits (t : NodeTable) : Reshaping → Prop
  | plant tree => t.Vacant tree
  | fell root => t.IsTop root
  | attach p tree =>
    t.Vacant tree ∧ p.owner ∈ t ∧ p.index ≤ (t.seated p.owner p.feature).length
  | detach p old => t.at? p = some old
  | exchange p tree old => t.at? p = some old ∧ t.Vacant tree
  | move target source id =>
    t.at? source = some id ∧ target.owner ∈ t ∧ ¬Above t.above? id target.owner ∧
      target.index ≤ ((t.removed source).seated target.owner target.feature).length
  | moveAndReplace target source id old =>
    t.at? target = some old ∧ t.at? source = some id ∧ ¬Above t.above? id target.owner ∧
      ¬Above t.above? old id

/-- The nodes at the top after a reshaping. -/
def Tops (t : NodeTable) (k : NodeId) : Reshaping → Prop
  | plant tree => k = tree.root.id ∨ t.IsTop k
  | fell root => k ≠ root ∧ t.IsTop k
  | _ => t.IsTop k

variable {t : NodeTable} {r : Reshaping} {k : NodeId}

/-- A reshaping turns trees into trees. -/
theorem treelike_outcome (ht : t.Treelike) (hr : r.Fits t)
    (htree : ∀ tree ∈ r.incoming, tree.IsTree) : (r.outcome t).Treelike := by
  -- Each reshaping brings the conditions under which it keeps the tree.
  cases r with
  | plant tree => exact ht.planted (htree tree List.mem_cons_self) hr
  | fell root => exact ht.felled hr.2
  | attach p tree =>
    obtain ⟨hv, ho, hi⟩ := hr
    exact ht.attached (htree tree List.mem_cons_self) hv ho hi
  | detach p old => exact ht.detached hr
  | exchange p tree old => exact ht.exchanged (htree tree List.mem_cons_self) hr.2 hr.1
  | move target source id =>
    obtain ⟨hs, ho, hbelow, hi⟩ := hr
    exact ht.moved hs ho hbelow hi
  | moveAndReplace target source id old =>
    obtain ⟨htarget, hs, hbelow, hold⟩ := hr
    exact ht.movedAndReplaced htarget hs hbelow hold

/-- Only partitions that come or go change what is at the top. -/
theorem isTop_outcome (ht : t.Treelike) (hr : r.Fits t)
    (htree : ∀ tree ∈ r.incoming, tree.IsTree) : (r.outcome t).IsTop k ↔ r.Tops t k := by
  cases r with
  | plant tree =>
    refine (NodeTable.isTop_planted (htree tree List.mem_cons_self) hr).trans ?_
    rw [Tops, and_iff_left rfl]
  | fell root => exact NodeTable.isTop_felled ht (fun _ => Iff.rfl) (fun _ => rfl) rfl
  | attach p tree => exact NodeTable.isTop_attached (htree tree List.mem_cons_self) hr.1
  | detach p old => exact NodeTable.isTop_detached ht hr
  | exchange p tree old =>
    exact NodeTable.isTop_exchanged ht (htree tree List.mem_cons_self) hr.2 hr.1
  | move target source id => exact NodeTable.isTop_moved ht hr.1
  | moveAndReplace target source id old =>
    obtain ⟨htarget, hs, -, hold⟩ := hr
    exact NodeTable.isTop_movedAndReplaced ht htarget hs hold

end Reshaping

/-! ## Changes that reshape -/

namespace Change

/-- The subtrees that come with a change. -/
def incoming : Change → List Subtree
  | partitionAdded tree => [tree]
  | childAdded _ new | childReplaced _ new _ => [new]
  | annotationAdded _ new | annotationReplaced _ new _ => [new]
  | _ => []

/-- The way in which a change gives a forest another shape, if it does. -/
def reshaping? : Change → Option Reshaping
  | partitionAdded tree => some (.plant tree)
  | partitionDeleted tree => some (.fell tree.root.id)
  | childAdded place new => some (.attach place.seat new)
  | childDeleted place old => some (.detach place.seat old.root.id)
  | childReplaced place new old => some (.exchange place.seat new old.root.id)
  | childMoved shift moved => some (.move shift.target.seat shift.source.seat moved)
  | childMovedAndReplaced shift moved old =>
    some (.moveAndReplace shift.target.seat shift.source.seat moved old.root.id)
  | annotationAdded place new => some (.attach place.seat new)
  | annotationDeleted place old => some (.detach place.seat old.root.id)
  | annotationReplaced place new old => some (.exchange place.seat new old.root.id)
  | annotationMoved shift moved => some (.move shift.target.seat shift.source.seat moved)
  | annotationMovedAndReplaced shift moved old =>
    some (.moveAndReplace shift.target.seat shift.source.seat moved old.root.id)
  | _ => none

variable {m : Model} {c : Change} {r : Reshaping}

theorem incoming_of_reshaping (h : c.reshaping? = some r) : c.incoming = r.incoming := by
  cases c <;> cases h <;> rfl

/-- Where a child lands, its seat has room for it. -/
theorem landing_of_slot {shift : Shift Handle} {moved : NodeId} {n : Node} {info : FeatureInfo}
    (hslot : m.slot .containment shift.target.owner shift.target.feature = .ok (n, info))
    (hland : Landing (shift.source.owner = shift.target.owner ∧
      shift.source.feature = shift.target.feature) (n.children shift.target.feature)
        shift.target.index) (hs : m.nodes.at? shift.source.seat = some moved) :
    shift.target.seat.index ≤ ((m.nodes.removed shift.source.seat).seated
      shift.target.seat.owner shift.target.seat.feature).length := by
  refine NodeTable.landing_seated hs ?_
  rw [(Model.seated_of_slot hslot).2]
  simpa only [Place.seat, Seat.containment.injEq] using hland

/-- A change that fits has what its reshaping needs. -/
theorem fits_of_reshaping (ht : m.nodes.Treelike) (hc : c.Fits m) (h : c.reshaping? = some r) :
    r.Fits m.nodes := by
  cases c <;> cases h
  case partitionAdded tree => exact Model.vacant_of_checkNew hc.2
  case partitionDeleted tree => exact NodeTable.isTop_iff.2 hc.1
  case childAdded place new =>
    obtain ⟨⟨n, info, hslot, hi⟩, hnew⟩ := hc
    obtain ⟨ho, hseated⟩ := Model.seated_of_slot hslot
    exact ⟨Model.vacant_of_checkNew hnew, ho, hseated ▸ hi⟩
  case childDeleted place old => exact Model.at?_of_childAt hc.1
  case childReplaced place new old =>
    exact ⟨Model.at?_of_childAt hc.1, Model.vacant_of_checkNew hc.2.1⟩
  case childMoved shift moved =>
    obtain ⟨⟨n, info, hslot, hland⟩, hsource, hbelow, -⟩ := hc
    have hs := Model.at?_of_locateChild hsource
    exact ⟨hs, (Model.seated_of_slot hslot).1, (Model.checkNotBelow_eq_ok ht).1 hbelow,
      landing_of_slot hslot hland hs⟩
  case childMovedAndReplaced shift moved old =>
    obtain ⟨htarget, hsource, hbelow, howner, -, -⟩ := hc
    exact ⟨Model.at?_of_childAt htarget, Model.at?_of_locateChild hsource,
      (Model.checkNotBelow_eq_ok ht).1 hbelow, (Model.checkNotReplacingOwner_eq_ok ht).1 howner⟩
  case annotationAdded place new =>
    obtain ⟨⟨n, hn, hi⟩, hnew⟩ := hc
    exact ⟨Model.vacant_of_checkNew hnew, mem_of_lookup hn, Model.seated_of_node hn ▸ hi⟩
  case annotationDeleted place old => exact Model.annotationAt_eq_ok.1 hc.1
  case annotationReplaced place new old =>
    exact ⟨Model.annotationAt_eq_ok.1 hc.1, Model.vacant_of_checkNew hc.2.1⟩
  case annotationMoved shift moved =>
    obtain ⟨⟨n, hn, hland⟩, hsource, hbelow, -⟩ := hc
    have hs := Model.at?_of_locateAnnotation hsource
    -- Within one node the moved annotation is taken out first, which makes room for one more.
    refine ⟨hs, mem_of_lookup hn, (Model.checkNotBelow_eq_ok ht).1 hbelow,
      NodeTable.landing_seated hs ?_⟩
    rw [Model.seated_of_node hn]
    simpa only [AnnotationPlace.seat, and_true] using hland
  case annotationMovedAndReplaced shift moved old =>
    obtain ⟨htarget, hsource, hbelow, howner, -, -⟩ := hc
    exact ⟨Model.annotationAt_eq_ok.1 htarget, Model.at?_of_locateAnnotation hsource,
      (Model.checkNotBelow_eq_ok ht).1 hbelow, (Model.checkNotReplacingOwner_eq_ok ht).1 howner⟩

end Change

end DeltaForest
