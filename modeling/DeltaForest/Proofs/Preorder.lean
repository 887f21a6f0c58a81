import DeltaForest.Proofs.Surgery

/-!
# Preorder

The nodes of trees are in preorder if every node comes before what it owns and all that is below a
node comes before its next sibling (`NodeTable.Preorder`). Nothing is said here of how they are
found. A walk through a table that is made of trees never comes to a node twice, so what it has in
front of it are always trees that it has not touched (`NodeTable.Ahead`), and it lists them in
preorder (`NodeTable.Treelike.preorder_depthFirst`).
-/

namespace DeltaForest

/-- Of two ids above the same one, one is above the other. -/
theorem Above.or_above {up : NodeId → Option NodeId} {a b k : NodeId} (ha : Above up a k)
    (hb : Above up b k) : Above up a b ∨ Above up b a := by
  induction ha with
  | self => exact .inr hb
  | @step k p hp ha ih =>
    rcases above_iff.1 hb with rfl | ⟨q, hq, hb⟩
    · exact .inl (.step hp ha)
    · obtain rfl := Option.some.inj (hp.symm.trans hq)
      exact ih hb

namespace NodeTable

/-- The ids of the trees below some roots, tree by tree, every node before what it owns and all that
    is below a node before its next sibling. -/
inductive Preorder (t : NodeTable) : List NodeId → List NodeId → Prop
  | nil : Preorder t [] []
  | cons {id : NodeId} {n : Node} {rest below beside : List NodeId} : t[id]? = some n →
    Preorder t n.owned below → Preorder t rest beside →
      Preorder t (id :: rest) (id :: (below ++ beside))

variable {t rest : NodeTable} {visited stack : List NodeId} {a b id p root : NodeId} {n : Node}

/-- Trees that are listed one after the other can be told apart. -/
theorem Preorder.exists_append {roots roots' order : List NodeId}
    (h : t.Preorder (roots ++ roots') order) :
    ∃ first second, order = first ++ second ∧ t.Preorder roots first ∧
      t.Preorder roots' second := by
  induction roots generalizing order with
  | nil => exact ⟨[], order, rfl, .nil, h⟩
  | cons id roots ih =>
    obtain _ | ⟨hn, hbelow, hbeside⟩ := h
    obtain ⟨first, second, rfl, hfirst, hsecond⟩ := ih hbeside
    exact ⟨_, second, by rw [List.cons_append, List.append_assoc], .cons hn hbelow hfirst, hsecond⟩

namespace Treelike

variable (h : t.Treelike)

include h

/-- A node owns others once each. -/
theorem nodup_owned (hn : t[p]? = some n) : n.owned.Nodup := by
  refine List.nodup_iff_count_le_one.2 fun k => ?_
  rw [← holdings_eq hn, h.linked]
  split <;> decide

/-- Trees below siblings have no node in common. -/
theorem siblings_apart (ha : t.above? a = some p) (hb : t.above? b = some p) (hne : a ≠ b)
    (k : NodeId) (hk : Above t.above? a k) : ¬Above t.above? b k := by
  -- One of two siblings would be above the other, and so above the node that is above both.
  have hapart {a b : NodeId} (ha : t.above? a = some p) (hb : t.above? b = some p) (hne : a ≠ b) :
      ¬Above t.above? a b := by
    intro hab
    obtain heq | ⟨q, hq, haq⟩ := above_iff.1 hab
    · exact hne heq.symm
    · obtain rfl := Option.some.inj (hb.symm.trans hq)
      exact (h.grounded a).not_above_up ha haq
  intro hk'
  rcases hk.or_above hk' with hab | hba
  · exact hapart ha hb hne hab
  · exact hapart hb ha hne.symm hba

end Treelike

/-- What a walk has in front of it are trees of a table, separate from each other, that it has not
    touched. The table `rest` holds what the walk has not passed. -/
structure Ahead (t rest : NodeTable) (visited stack : List NodeId) : Prop where
  there : ∀ s ∈ stack, s ∈ t
  apart : stack.Pairwise fun a b => ∀ k, Above t.above? a k → ¬Above t.above? b k
  fresh : ∀ s ∈ stack, ∀ k, Above t.above? s k → k ∉ visited
  same : ∀ k, k ∉ visited → rest[k]? = t[k]?

theorem ahead_root (hroot : root ∈ t) : t.Ahead t [] [root] where
  there := List.forall_mem_singleton.2 hroot
  apart := List.pairwise_singleton _ _
  fresh _ _ _ _ := List.not_mem_nil
  same _ _ := rfl

namespace Ahead

theorem notMem (h : t.Ahead rest visited (id :: stack)) : id ∉ visited :=
  h.fresh id List.mem_cons_self id .self

theorem lookup_eq (h : t.Ahead rest visited (id :: stack)) : rest[id]? = t[id]? :=
  h.same id h.notMem

/-- Once a node has been passed, the trees below it take the place of its own. -/
theorem step (ht : t.Treelike) (h : t.Ahead rest visited (id :: stack)) (hn : t[id]? = some n) :
    t.Ahead (rest.erase id) (id :: visited) (n.owned ++ stack) where
  there s hs := by
    rcases List.mem_append.1 hs with hs | hs
    · exact (ht.mem_of_above? (ht.above?_of_owned hn hs)).1
    · exact h.there s (List.mem_cons_of_mem _ hs)
  apart := by
    obtain ⟨hid, hstack⟩ := List.pairwise_cons.1 h.apart
    refine List.pairwise_append.2 ⟨?_, hstack, fun a ha b hb k hk => ?_⟩
    · exact (ht.nodup_owned hn).imp_of_mem fun ha hb hne =>
        ht.siblings_apart (ht.above?_of_owned hn ha) (ht.above?_of_owned hn hb) hne
    · exact hid b hb k (hk.of_up (ht.above?_of_owned hn ha))
  fresh s hs k hk := by
    rw [List.mem_cons, not_or]
    rcases List.mem_append.1 hs with hs | hs
    · have habove := ht.above?_of_owned hn hs
      refine ⟨?_, h.fresh id List.mem_cons_self k (hk.of_up habove)⟩
      rintro rfl
      exact (ht.grounded s).not_above_up habove hk
    · refine ⟨?_, h.fresh s (List.mem_cons_of_mem _ hs) k hk⟩
      rintro rfl
      exact (List.pairwise_cons.1 h.apart).1 s hs k .self hk
  same k hk := by
    obtain ⟨hne, hk⟩ := not_or.1 (mt List.mem_cons.2 hk)
    rw [lookup_erase, if_neg (Ne.symm hne), h.same k hk]

end Ahead

/-- A walk lists the trees that it has in front of it in preorder. -/
theorem Treelike.preorder_walk (ht : t.Treelike) (h : t.Ahead rest visited stack) :
    t.Preorder stack (walk rest visited stack) := by
  fun_induction walk rest visited stack with
  | case1 => exact .nil
  | case2 _ _ _ _ hid => exact absurd hid h.notMem
  | case3 rest visited id stack hid n hn ih =>
    have hn : t[id]? = some n := h.lookup_eq ▸ hn
    obtain ⟨below, beside, heq, hbelow, hbeside⟩ := (ih (h.step ht hn)).exists_append
    rw [heq]
    exact .cons hn hbelow hbeside
  | case4 rest visited id stack hid hn =>
    exact absurd (h.there id List.mem_cons_self) (notMem_iff.2 (h.lookup_eq ▸ hn))

/-- What is below a node is listed in preorder. -/
theorem Treelike.preorder_depthFirst (h : t.Treelike) (hroot : root ∈ t) :
    t.Preorder [root] (t.depthFirst root) :=
  h.preorder_walk (ahead_root hroot)

end NodeTable

end DeltaForest
