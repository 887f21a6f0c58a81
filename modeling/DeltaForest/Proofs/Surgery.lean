import DeltaForest.Forest
import DeltaForest.Proofs.Seated
import Mathlib.Data.List.Perm.Basic

/-!
# Changes of shape

A change of the shape of a forest attaches a subtree, detaches one, exchanges two, or moves a node,
with or without taking the place of another one. Each of these actions goes step by step. Here is
what table it ends with if its places are what they should be (`attach_eq` and the like), and that
a table that was made of trees is so again at the end, although it need not be in between.
-/

namespace DeltaForest

/-! ## Counting at a position -/

section Count

variable {l : List NodeId} {i : Nat} {a : NodeId}

/-- Putting something into a list makes one more of it. -/
theorem count_insertIdx (hi : i ≤ l.length) (k : NodeId) :
    (l.insertIdx i a).count k = l.count k + if k = a then 1 else 0 := by
  rw [(List.perm_insertIdx a l hi).count_eq, List.count_cons]
  simp only [beq_iff_eq, eq_comm (a := k)]

/-- Taking something out of a list makes one less of it. -/
theorem count_eraseIdx (h : l[i]? = some a) (k : NodeId) :
    (l.eraseIdx i).count k + (if k = a then 1 else 0) = l.count k := by
  obtain ⟨hi, rfl⟩ := List.getElem?_eq_some_iff.1 h
  rw [← (List.getElem_cons_eraseIdx_perm hi).count_eq, List.count_cons]
  simp only [beq_iff_eq, eq_comm (a := k)]

/-- Putting something in the place of something else makes one more of it and one less of the
    other. -/
theorem count_set (b : NodeId) (h : l[i]? = some a) (k : NodeId) :
    (l.set i b).count k + (if k = a then 1 else 0) = l.count k + if k = b then 1 else 0 := by
  have hi := (List.getElem?_eq_some_iff.1 h).1
  have hset := (List.set_perm_cons_eraseIdx hi b).count_eq k
  have herase := count_eraseIdx h k
  rw [List.count_cons] at hset
  simp only [beq_iff_eq, eq_comm (a := b)] at hset
  omega

end Count

namespace NodeTable

variable {t : NodeTable} {k owner id old : NodeId} {p : Place Seat}

/-! ## Steps at a place -/

/-- A table with one more node at a place. -/
def inserted (t : NodeTable) (p : Place Seat) (id : NodeId) : NodeTable :=
  t.withSeated p.owner p.feature ((t.seated p.owner p.feature).insertIdx p.index id)

/-- A table without the node at a place. -/
def removed (t : NodeTable) (p : Place Seat) : NodeTable :=
  t.withSeated p.owner p.feature ((t.seated p.owner p.feature).eraseIdx p.index)

/-- A table with another node at a place. -/
def replaced (t : NodeTable) (p : Place Seat) (id : NodeId) : NodeTable :=
  t.withSeated p.owner p.feature ((t.seated p.owner p.feature).set p.index id)

/-- The node at a place. -/
def at? (t : NodeTable) (p : Place Seat) : Option NodeId :=
  (t.seated p.owner p.feature)[p.index]?

/-- Where somebody sits there is an owner. -/
theorem mem_of_at? (h : t.at? p = some id) : p.owner ∈ t :=
  mem_of_mem_seated (List.mem_of_getElem? h)

/-- A node that takes the place of another one stays where it was, too. -/
theorem at?_replaced {q : Place Seat} (hp : t.at? p = some old) (hq : t.at? q = some id) :
    (t.replaced p id).at? q = some id := by
  rw [at?, replaced, seated_withSeated (mem_of_at? hp)]
  split
  · next h =>
    rw [at?, ← h.1, ← h.2] at hq
    rw [List.getElem?_set, if_pos (List.getElem?_eq_some_iff.1 hp).1]
    split
    · rfl
    · exact hq
  · exact hq

/-- A child that is put into a seat is held once more there, and nobody else is. -/
theorem holdings_inserted (id : NodeId) (ho : p.owner ∈ t)
    (hi : p.index ≤ (t.seated p.owner p.feature).length) (owner k : NodeId) :
    (t.inserted p id).holdings owner k =
      t.holdings owner k + if owner = p.owner ∧ k = id then 1 else 0 := by
  have h := holdings_withSeated p.feature ((t.seated p.owner p.feature).insertIdx p.index id) ho
    owner k
  rw [count_insertIdx hi] at h
  rw [inserted]
  by_cases hp : owner = p.owner
  · simp only [hp, true_and, if_true] at h ⊢
    omega
  · simpa [hp] using h

/-- A child that is taken out of a seat is held once less there, and nobody else is. -/
theorem holdings_removed (h : t.at? p = some id) (owner k : NodeId) :
    (t.removed p).holdings owner k + (if owner = p.owner ∧ k = id then 1 else 0) =
      t.holdings owner k := by
  have hh := holdings_withSeated p.feature ((t.seated p.owner p.feature).eraseIdx p.index)
    (mem_of_at? h) owner k
  have hcount := count_eraseIdx h k
  rw [removed]
  by_cases hp : owner = p.owner
  · simp only [hp, true_and, if_true] at hh ⊢
    omega
  · simpa [hp] using hh

/-- A child that takes the seat of another one is held once more, the other one once less. -/
theorem holdings_replaced (id : NodeId) (h : t.at? p = some old) (owner k : NodeId) :
    (t.replaced p id).holdings owner k + (if owner = p.owner ∧ k = old then 1 else 0) =
      t.holdings owner k + if owner = p.owner ∧ k = id then 1 else 0 := by
  have hh := holdings_withSeated p.feature ((t.seated p.owner p.feature).set p.index id)
    (mem_of_at? h) owner k
  have hcount := count_set id h k
  rw [replaced]
  by_cases hp : owner = p.owner
  · simp only [hp, true_and, if_true] at hh ⊢
    omega
  · simpa [hp] using hh

@[simp] theorem above?_inserted : (t.inserted p id).above? k = t.above? k := above?_withSeated

@[simp] theorem above?_removed : (t.removed p).above? k = t.above? k := above?_withSeated

@[simp] theorem above?_replaced : (t.replaced p id).above? k = t.above? k := above?_withSeated

@[simp] theorem targets?_inserted : (t.inserted p id).targets? k = t.targets? k :=
  targets?_withSeated

@[simp] theorem targets?_removed : (t.removed p).targets? k = t.targets? k := targets?_withSeated

@[simp] theorem targets?_replaced : (t.replaced p id).targets? k = t.targets? k :=
  targets?_withSeated

@[simp] theorem mem_inserted : k ∈ t.inserted p id ↔ k ∈ t := mem_withSeated

@[simp] theorem mem_removed : k ∈ t.removed p ↔ k ∈ t := mem_withSeated

@[simp] theorem mem_replaced : k ∈ t.replaced p id ↔ k ∈ t := mem_withSeated

namespace Treelike

variable (h : t.Treelike)

include h

/-- Linked nodes are there. -/
theorem mem_of_above? (ha : t.above? k = some owner) : k ∈ t ∧ owner ∈ t := by
  obtain ⟨n, hn, -⟩ := exists_of_above? ha
  obtain ⟨m, hm, -⟩ := h.count_owned_of_above? ha
  exact ⟨mem_of_lookup hn, mem_of_lookup hm⟩

/-- A node at a place has a link to the owner. -/
theorem above?_of_at? (hp : t.at? p = some id) : t.above? id = some p.owner := by
  obtain ⟨n, hn⟩ := mem_iff_exists.1 (mem_of_at? hp)
  rw [at?, seated_eq hn] at hp
  exact h.above?_of_owned hn (n.mem_owned.2 ⟨_, List.mem_of_getElem? hp⟩)

/-- What is below a registered node is registered. -/
theorem mem_of_mem_depthFirst {root : NodeId} (hroot : root ∈ t) (hk : k ∈ t.depthFirst root) :
    k ∈ t := by
  rw [h.mem_depthFirst] at hk
  cases hk with
  | self => exact hroot
  | step hp _ => exact (h.mem_of_above? hp).1

/-- The owner of a child is not below it, or it would be above itself. -/
theorem owner_notMem_depthFirst (hp : t.at? p = some id) : p.owner ∉ t.depthFirst id :=
  h.above_notMem_depthFirst (h.above?_of_at? hp)

end Treelike

/-! ## Attaching -/

/-- A table with a subtree at a place. -/
def attached (t : NodeTable) (p : Place Seat) (tree : Subtree) : NodeTable :=
  (t.planted tree (some p.owner)).inserted p tree.root.id

variable {tree : Subtree}

/-- What is linked in a subtree that is to come is not there. -/
theorem Vacant.notMem_of_above? (hv : t.Vacant tree) (htree : tree.IsTree)
    (ha : (tree.table none).above? k = some owner) : k ∉ t ∧ owner ∉ t := by
  obtain ⟨hk, ho⟩ := htree.treelike.mem_of_above? ha
  rw [mem_table htree.distinct] at hk ho
  exact ⟨hv.notMem hk, hv.notMem ho⟩

/-- The root of a subtree has nobody above it in the subtree. -/
theorem above?_table_root (htree : tree.IsTree) : (tree.table none).above? tree.root.id = none := by
  rw [above?_eq (lookup_table_root htree.distinct)]

/-- A partition that comes is a tree beside the others. -/
theorem Treelike.planted (h : t.Treelike) (htree : tree.IsTree) (hv : t.Vacant tree) :
    (t.planted tree none).Treelike where
  toCoherent := by
    refine h.graft (fun k => k ∈ t) none htree.treelike.toCoherent
      (above?_table_root htree) (fun k p => h.mem_of_above?) (fun k p => hv.notMem_of_above? htree)
      hv.root_notMem (by simp) (fun k => above?_planted hv htree.distinct) fun o k => ?_
    rw [holdings_planted hv htree.distinct]
    simp
  keyed := h.keyed.planted htree.distinct htree.treelike.keyed

/-- A tree that is put into a seat hangs together with the trees that are there. -/
theorem Treelike.attached (h : t.Treelike) (htree : tree.IsTree) (hv : t.Vacant tree)
    (ho : p.owner ∈ t) (hi : p.index ≤ (t.seated p.owner p.feature).length) :
    (t.attached p tree).Treelike where
  toCoherent := by
    have ho' : p.owner ∈ t.planted tree (some p.owner) :=
      (mem_planted htree.distinct).2 (.inr ho)
    -- Only the root of the subtree gets a parent that was there before.
    refine h.graft (fun k => k ∈ t) (some p.owner)
      htree.treelike.toCoherent (above?_table_root htree) (fun k p => h.mem_of_above?)
      (fun k p => hv.notMem_of_above? htree) hv.root_notMem (by simpa using ho) (fun k => ?_)
      fun o k => ?_
    · rw [NodeTable.attached, above?_inserted, above?_planted hv htree.distinct]
    · -- The subtree brings its own holdings; the owner gets one more, the root.
      rw [NodeTable.attached, holdings_inserted _ ho', holdings_planted hv htree.distinct]
      · simp only [Option.some.injEq, eq_comm (a := p.owner), and_comm]
      · rwa [seated_planted hv htree.distinct ho]
  keyed := (h.keyed.planted htree.distinct htree.treelike.keyed).withSeated

/-! ## Detaching -/

/-- A table without the subtree at a place. -/
def detached (t : NodeTable) (p : Place Seat) (old : NodeId) : NodeTable :=
  (t.removed p).felled old

/-- A partition that goes leaves the other trees alone. -/
theorem Treelike.felled (h : t.Treelike) (hroot : t.above? old = none) :
    (t.felled old).Treelike where
  toCoherent := by
    refine h.cut old (t.depthFirst old) (fun k => h.mem_depthFirst)
      (fun k => above?_felled) fun o k => ?_
    rw [holdings_felled, h.linked]
    by_cases hk : k = old
    · simp [hk, hroot]
    · simp [hk]
  keyed := h.keyed.felled

/-- Without a child and all below it, the others hang together as before. -/
theorem Treelike.detached (h : t.Treelike) (hp : t.at? p = some old) :
    (t.detached p old).Treelike where
  toCoherent := by
    have ha := h.above?_of_at? hp
    -- Taking the old node out of its seat does not change what is below it.
    have hgone : (t.removed p).depthFirst old = t.depthFirst old :=
      depthFirst_withSeated (h.owner_notMem_depthFirst hp)
    refine h.cut old (t.depthFirst old) (fun k => h.mem_depthFirst)
      (fun k => ?_) fun o k => ?_
    · rw [NodeTable.detached, above?_felled, hgone, above?_removed]
    · -- The owner no longer holds the old node, and those below it have no holdings any more.
      have hh := holdings_removed hp o k
      rw [NodeTable.detached, holdings_felled, hgone]
      rw [h.linked] at hh ⊢
      by_cases hk : k = old
      · simp only [hk, ha, Option.some.injEq, eq_comm (a := p.owner), and_true] at hh
        simp only [hk, or_true, if_true]
        split <;> omega
      · simp only [hk, and_false, if_false] at hh
        simp [hk, ← hh]
  keyed := h.keyed.withSeated.felled

/-! ## Exchanging -/

/-- A table with another subtree at a place. -/
def exchanged (t : NodeTable) (p : Place Seat) (tree : Subtree) (old : NodeId) : NodeTable :=
  ((t.replaced p tree.root.id).felled old).planted tree (some p.owner)

section Exchanged

variable (h : t.Treelike) (htree : tree.IsTree) (hv : t.Vacant tree) (hp : t.at? p = some old)

include h htree hv hp

omit htree in
/-- Where the old node has gone there is room for the new subtree. -/
theorem Treelike.depthFirst_of_exchange :
    (t.replaced p tree.root.id).depthFirst old = t.depthFirst old ∧
      ((t.replaced p tree.root.id).felled old).Vacant tree :=
  ⟨depthFirst_withSeated (h.owner_notMem_depthFirst hp),
    hv.mono fun _ hk => mem_replaced.1 (mem_felled.1 hk).1⟩

/-- The owner holds the root of the new subtree in place of the old node, of which nothing is
    left. The new subtree brings its own holdings. -/
theorem Treelike.holdings_exchanged (o k : NodeId) : (t.exchanged p tree old).holdings o k =
    (if o ∈ t.depthFirst old ∨ k = old then 0 else t.holdings o k) +
      (tree.table none).holdings o k +
      if k = tree.root.id ∧ some p.owner = some o then 1 else 0 := by
  obtain ⟨hgone, hv'⟩ := h.depthFirst_of_exchange hv hp
  have ha := h.above?_of_at? hp
  have hh := holdings_replaced tree.root.id hp o k
  have hne : old ≠ tree.root.id := fun heq => hv.root_notMem (heq ▸ (h.mem_of_above? ha).1)
  rw [NodeTable.exchanged, holdings_planted hv' htree.distinct, holdings_felled, hgone]
  simp only [Option.some.injEq, eq_comm (a := p.owner)]
  -- The owner itself stays: it is not below what it owns.
  by_cases ho : o ∈ t.depthFirst old
  · have : o ≠ p.owner := fun heq => h.owner_notMem_depthFirst hp (heq ▸ ho)
    simp [ho, this]
  by_cases hk : k = old
  · rw [h.linked, hk, ha] at hh
    simp only [Option.some.injEq, eq_comm (a := p.owner), and_true, hne, and_false,
      if_false] at hh
    simp only [ho, hk, hne, or_true, if_true, if_false, false_and]
    omega
  · simp only [hk, and_false, if_false, Nat.add_zero] at hh
    simp only [ho, hk, or_self, if_false, hh, and_comm (a := k = tree.root.id)]
    omega

/-- A tree may take the seat of a child, which goes with all below it. -/
theorem Treelike.exchanged : (t.exchanged p tree old).Treelike where
  toCoherent := by
    obtain ⟨hgone, hv'⟩ := h.depthFirst_of_exchange hv hp
    -- First the old node is cut off, then the new subtree is grafted on.
    have hcut := h.cut old (t.depthFirst old) (fun k => h.mem_depthFirst)
      (fun _ => rfl) fun _ _ => rfl
    refine hcut.graft (fun k => k ∈ t) (some p.owner)
      htree.treelike.toCoherent (above?_table_root htree) (fun k o hk => ?_)
      (fun k p => hv.notMem_of_above? htree) hv.root_notMem (by simpa using mem_of_at? hp)
      (fun k => ?_) fun o k => h.holdings_exchanged htree hv hp o k
    · split at hk
      · simp at hk
      · exact h.mem_of_above? hk
    · rw [NodeTable.exchanged, above?_planted hv' htree.distinct, above?_felled, hgone,
        above?_replaced]
  keyed := h.keyed.withSeated.felled.planted htree.distinct htree.treelike.keyed

end Exchanged

/-! ## Moving -/

/-- A table with a node at another place. -/
def moved (t : NodeTable) (target source : Place Seat) (id : NodeId) : NodeTable :=
  ((t.removed source).inserted target id).adopted id target.owner

/-- A table with a node in the place of another one, which is gone with everything below it. -/
def movedAndReplaced (t : NodeTable) (target source : Place Seat) (id old : NodeId) : NodeTable :=
  (((t.replaced target id).removed source).felled old).adopted id target.owner

variable {target source : Place Seat}

@[simp] theorem mem_moved : k ∈ t.moved target source id ↔ k ∈ t :=
  mem_adopted.trans (mem_inserted.trans mem_removed)

/-- After a move the node that has been moved has its new owner above it, and nobody else has
    changed. -/
theorem above?_moved (hid : id ∈ t) : (t.moved target source id).above? k =
    if k = id then some target.owner else t.above? k := by
  rw [moved, above?_adopted (mem_inserted.2 (mem_removed.2 hid)), above?_inserted, above?_removed]

/-- A child may be moved to a seat that is not below it. -/
theorem Treelike.moved (h : t.Treelike) (hs : t.at? source = some id)
    (ho : target.owner ∈ t) (hbelow : ¬Above t.above? id target.owner)
    (hi : target.index ≤ ((t.removed source).seated target.owner target.feature).length) :
    (t.moved target source id).Treelike where
  toCoherent := by
    have hid := (h.mem_of_above? (h.above?_of_at? hs)).1
    refine h.redirect id target.owner hbelow (fun k => above?_moved hid) fun o k => ?_
    -- One holding goes at the source and one comes at the target; of others nothing changes.
    have hremoved := holdings_removed hs o k
    have hinserted := holdings_inserted id (mem_removed.2 ho) hi o k
    rw [NodeTable.moved, holdings_adopted, hinserted]
    by_cases hk : k = id
    · rw [h.linked, hk, h.above?_of_at? hs] at hremoved
      simp only [Option.some.injEq, eq_comm (a := source.owner), and_true] at hremoved
      simp only [hk, and_true, if_true]
      omega
    · simp only [hk, and_false, if_false, Nat.add_zero] at hremoved ⊢
      exact hremoved
  keyed := h.keyed.withSeated.withSeated.adopted

/-- Other nodes at the places do not matter to what is below the node that goes. -/
theorem Treelike.depthFirst_of_move (h : t.Treelike) (ht : t.at? target = some old)
    (hs : t.at? source = some id) (hold : ¬Above t.above? old id) :
    ((t.replaced target id).removed source).depthFirst old = t.depthFirst old := by
  have hfirst : (t.replaced target id).depthFirst old = t.depthFirst old :=
    depthFirst_withSeated (h.owner_notMem_depthFirst ht)
  have hsource : source.owner ∉ t.depthFirst old := by
    rw [h.mem_depthFirst]
    exact fun ha => hold (.step (h.above?_of_at? hs) ha)
  rw [← hfirst]
  exact depthFirst_withSeated (hfirst ▸ hsource)

/-- A node that is not below the one that goes stays. -/
theorem Treelike.mem_felled_of_move (h : t.Treelike) (ht : t.at? target = some old)
    (hs : t.at? source = some id) (hold : ¬Above t.above? old id) :
    id ∈ ((t.replaced target id).removed source).felled old := by
  rw [mem_felled, h.depthFirst_of_move ht hs hold, h.mem_depthFirst]
  exact ⟨mem_removed.2 (mem_replaced.2 (h.mem_of_above? (h.above?_of_at? hs)).1), hold⟩

/-- What goes is the child that is replaced with all below it. -/
theorem Treelike.mem_movedAndReplaced (h : t.Treelike) (ht : t.at? target = some old)
    (hs : t.at? source = some id) (hold : ¬Above t.above? old id) :
    k ∈ t.movedAndReplaced target source id old ↔ k ∈ t ∧ k ∉ t.depthFirst old := by
  rw [NodeTable.movedAndReplaced, mem_adopted, mem_felled, h.depthFirst_of_move ht hs hold,
    mem_removed, mem_replaced]

/-- The child that has been moved is below its new owner, and what has gone is below nobody. -/
theorem Treelike.above?_movedAndReplaced (h : t.Treelike) (ht : t.at? target = some old)
    (hs : t.at? source = some id) (hold : ¬Above t.above? old id) :
    (t.movedAndReplaced target source id old).above? k =
      if k = id then some target.owner else if k ∈ t.depthFirst old then none else t.above? k := by
  rw [NodeTable.movedAndReplaced, above?_adopted (h.mem_felled_of_move ht hs hold), above?_felled,
    h.depthFirst_of_move ht hs hold, above?_removed, above?_replaced]

/-- The new owner holds the child that has been moved, and nobody else does. What has gone holds
    nothing, and nobody holds the one that has been replaced. -/
theorem Treelike.holdings_movedAndReplaced (h : t.Treelike) (ht : t.at? target = some old)
    (hs : t.at? source = some id) (hold : ¬Above t.above? old id) (o k : NodeId) :
    (t.movedAndReplaced target source id old).holdings o k =
      if k = id then (if o = target.owner then 1 else 0)
      else if o ∈ t.depthFirst old ∨ k = old then 0 else t.holdings o k := by
  have hne : old ≠ id := fun heq => hold (heq ▸ .self)
  have hreplaced := holdings_replaced id ht o k
  have hremoved := holdings_removed (at?_replaced ht hs) o k
  -- The moved node is held twice in between: at its old place and in place of the old node.
  rw [NodeTable.movedAndReplaced, holdings_adopted, holdings_felled,
    h.depthFirst_of_move ht hs hold]
  by_cases ho : o ∈ t.depthFirst old
  · have : o ≠ target.owner := fun heq => h.owner_notMem_depthFirst ht (heq ▸ ho)
    simp [ho, this]
  by_cases hkold : k = old
  · rw [h.linked, hkold, h.above?_of_at? ht] at hreplaced
    simp only [Option.some.injEq, eq_comm (a := target.owner), and_true, hne, and_false,
      if_false] at hreplaced
    simp only [hkold, hne, and_false, if_false] at hremoved
    simp only [ho, hkold, hne, or_true, if_true, if_false]
    omega
  by_cases hkid : k = id
  · rw [h.linked, hkid, h.above?_of_at? hs] at hreplaced
    simp only [Option.some.injEq, eq_comm (a := source.owner), and_true, hne.symm, and_false,
      if_false] at hreplaced
    simp only [hkid, and_true] at hremoved
    simp only [ho, hkid, if_true, if_false]
    omega
  · simp only [hkold, hkid, and_false, if_false, Nat.add_zero] at hreplaced hremoved
    simp only [ho, hkold, hkid, or_self, if_false, hremoved, hreplaced]

/-- A child may take the seat of another one, unless it is below that one or the seat is below
    it. -/
theorem Treelike.movedAndReplaced (h : t.Treelike) (ht : t.at? target = some old)
    (hs : t.at? source = some id) (hbelow : ¬Above t.above? id target.owner)
    (hold : ¬Above t.above? old id) : (t.movedAndReplaced target source id old).Treelike where
  toCoherent := by
    -- First the old node is cut off, then the moved one gets another link.
    have hcut := h.cut old (t.depthFirst old) (fun k => h.mem_depthFirst)
      (fun _ => rfl) fun _ _ => rfl
    refine hcut.redirect id target.owner (fun ha => hbelow (ha.mono fun k o hk => ?_))
      (fun k => h.above?_movedAndReplaced ht hs hold)
      fun o k => h.holdings_movedAndReplaced ht hs hold o k
    split at hk
    · simp at hk
    · exact hk
  keyed := h.keyed.withSeated.withSeated.felled.adopted

end NodeTable

/-! ## Actions step by step -/

section Bind

variable {ε σ α β : Type} {action : EStateM ε σ α} {next : α → EStateM ε σ β} {s s' : σ}

/-- An action goes on where the one before it has come to. -/
theorem bind_of_ok {a : α} (h : action s = .ok a s') : (action >>= next) s = next a s' := by
  show EStateM.bind action next s = _
  rw [EStateM.bind, h]

/-- Behind an action that fails nothing is done. -/
theorem bind_of_error {fault : ε} (h : action s = .error fault s') :
    (action >>= next) s = .error fault s' := by
  show EStateM.bind action next s = _
  rw [EStateM.bind, h]

end Bind

namespace Forest.Action

variable {α : Type} {f f' : Forest} {kind : String} {p target source : Place Seat}
variable {id old moved : NodeId} {tree : Subtree} {parent : Option NodeId}

/-- A step with a node that is there has the effect of editing the table. -/
theorem onNode_of_ok {step : Node → Option (α × Node)} {edit : Node → Node} {n : Node} {a : α}
    (hn : f.nodes[id]? = some n) (hstep : step n = some (a, edit n)) :
    onNode kind id step f = .ok a { f with nodes := f.nodes.edited id edit } := by
  simp [onNode, hn, hstep, NodeTable.edited]

/-- Putting a child into a seat succeeds if the list reaches that far. -/
theorem seat_eq (ho : p.owner ∈ f.nodes)
    (hi : p.index ≤ (f.nodes.seated p.owner p.feature).length) :
    seat kind p id f = .ok () { f with nodes := f.nodes.inserted p id } := by
  obtain ⟨n, hn⟩ := mem_iff_exists.1 ho
  refine onNode_of_ok hn ?_
  rw [NodeTable.seated_eq hn] at hi ⊢
  rw [Position.insert?, if_pos hi]
  rfl

/-- Taking a child out of a seat succeeds if it sits there. -/
theorem unseat_eq (h : f.nodes.at? p = some id) :
    unseat kind p f = .ok () { f with nodes := f.nodes.removed p } := by
  obtain ⟨n, hn⟩ := mem_iff_exists.1 (NodeTable.mem_of_at? h)
  refine onNode_of_ok hn ?_
  rw [NodeTable.at?, NodeTable.seated_eq hn] at h
  rw [NodeTable.seated_eq hn, Position.remove?, h]
  rfl

/-- Putting a child in the place of another one succeeds if that one sits there. -/
theorem reseat_eq (h : f.nodes.at? p = some old) :
    reseat kind p id f = .ok () { f with nodes := f.nodes.replaced p id } := by
  obtain ⟨n, hn⟩ := mem_iff_exists.1 (NodeTable.mem_of_at? h)
  refine onNode_of_ok hn ?_
  rw [NodeTable.at?, NodeTable.seated_eq hn] at h
  rw [NodeTable.seated_eq hn, Position.replace?, if_pos (List.getElem?_eq_some_iff.1 h).1]
  rfl

/-- Giving a node another parent succeeds if the node is there. -/
theorem adopt_eq {above : NodeId} (h : id ∈ f.nodes) :
    adopt id above f = .ok () { f with nodes := f.nodes.adopted id above } := by
  obtain ⟨n, hn⟩ := mem_iff_exists.1 h
  simp [adopt, onNodes, NodeTable.get_eq_ok.2 hn, NodeTable.adopted, hn]

/-- Entering a subtree succeeds if none of its ids is taken. -/
theorem plant_eq (hv : f.nodes.Vacant tree) :
    plant tree parent f = .ok () { f with nodes := f.nodes.planted tree parent } := by
  simp [plant, onNodes, NodeTable.insertSubtree, NodeTable.checkVacant_eq_ok.2 hv,
    NodeTable.planted]

/-- Taking out a node with all below it succeeds if the node is there. -/
theorem fell_eq (h : old ∈ f.nodes) :
    fell old f = .ok () { f with nodes := f.nodes.felled old } := by
  obtain ⟨n, hn⟩ := mem_iff_exists.1 h
  simp [fell, onNodes, NodeTable.eraseSubtree, NodeTable.get_eq_ok.2 hn, NodeTable.felled]

/-! ## Compound actions -/

/-- Entering a subtree and seating its root succeeds, with the table that `attached` says. -/
theorem attach_eq (hv : f.nodes.Vacant tree) (hd : (tree.nodes.map Node.id).Nodup)
    (ho : p.owner ∈ f.nodes) (hi : p.index ≤ (f.nodes.seated p.owner p.feature).length) :
    attach kind p tree f = .ok () { f with nodes := f.nodes.attached p tree } := by
  rw [attach, bind_of_ok (plant_eq hv)]
  refine seat_eq ((NodeTable.mem_planted hd).2 (.inr ho)) ?_
  rwa [NodeTable.seated_planted hv hd ho]

/-- Unseating a child and taking it out with all below it succeeds, with the table that `detached`
    says. -/
theorem detach_eq (hp : f.nodes.at? p = some old) (hold : old ∈ f.nodes) :
    detach kind p old f = .ok () { f with nodes := f.nodes.detached p old } := by
  rw [detach, bind_of_ok (unseat_eq hp)]
  exact fell_eq (NodeTable.mem_removed.2 hold)

/-- The child that goes is taken out before the subtree is entered that takes its seat. -/
theorem exchange_eq (hp : f.nodes.at? p = some old) (hold : old ∈ f.nodes)
    (hv : f.nodes.Vacant tree) :
    exchange kind p tree old f = .ok () { f with nodes := f.nodes.exchanged p tree old } := by
  rw [exchange, bind_of_ok (reseat_eq hp), bind_of_ok (fell_eq (NodeTable.mem_replaced.2 hold))]
  exact plant_eq (hv.mono fun k hk => NodeTable.mem_replaced.1 (NodeTable.mem_felled.1 hk).1)

/-- Taking a child out of one seat and putting it into another one succeeds, with the table that
    `moved` says. -/
theorem move_eq (hs : f.nodes.at? source = some moved) (hmoved : moved ∈ f.nodes)
    (ho : target.owner ∈ f.nodes)
    (hi : target.index ≤ ((f.nodes.removed source).seated target.owner target.feature).length) :
    move kind target source moved f =
      .ok () { f with nodes := f.nodes.moved target source moved } := by
  rw [move, bind_of_ok (unseat_eq hs), bind_of_ok (seat_eq (NodeTable.mem_removed.2 ho) hi)]
  exact adopt_eq (NodeTable.mem_inserted.2 (NodeTable.mem_removed.2 hmoved))

/-- The child that goes is taken out before the moved one is unseated, and the moved one takes its
    seat. -/
theorem moveAndReplace_eq (h : f.nodes.Treelike) (ht : f.nodes.at? target = some old)
    (hs : f.nodes.at? source = some moved) (hold : ¬Above f.nodes.above? old moved) :
    moveAndReplace kind target source moved old f =
      .ok () { f with nodes := f.nodes.movedAndReplaced target source moved old } := by
  have hmem := (h.mem_of_above? (h.above?_of_at? ht)).1
  rw [moveAndReplace, bind_of_ok (reseat_eq ht),
    bind_of_ok (unseat_eq (NodeTable.at?_replaced ht hs)),
    bind_of_ok (fell_eq (NodeTable.mem_removed.2 (NodeTable.mem_replaced.2 hmem)))]
  exact adopt_eq (h.mem_felled_of_move ht hs hold)

end Forest.Action

end DeltaForest
