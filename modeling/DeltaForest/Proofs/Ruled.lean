import DeltaForest.Proofs.Outcome

/-!
# Rules for nodes

A rule looks at nodes one by one, without regard to the others. It says which nodes are allowed,
and which lists may stand in a seat of a node with some classifier (`NodeRule`). A node that gets
such a list stays allowed, and so does a node from whose lists something is taken away.

If a table obeys a rule, and what a reshaping puts into seats may stand there (`Reshaping.Suits`),
then the table that comes of the reshaping obeys the rule as well (`Reshaping.obeys_outcome`). Only
places at which something new comes to stand have to be looked at; that what leaves a seat does no
harm is part of what makes a rule.
-/

namespace DeltaForest

/-- A rule for nodes. -/
structure NodeRule where
  /-- Which nodes are allowed. -/
  Allows : Node → Prop
  /-- What may be in a seat of a node with a classifier. -/
  Seats : Handle → Seat → List NodeId → Prop
  /-- The link to the node above plays no part. -/
  linked : ∀ {n}, Allows n → ∀ parent, Allows { n with parent := parent }
  seated : ∀ {n}, Allows n → ∀ s, Seats n.classifier s (n.seated s)
  withSeated : ∀ {n s ids}, Allows n → Seats n.classifier s ids → Allows (n.withSeated s ids).prune
  sublist : ∀ {c s ids ids'}, Seats c s ids → ids'.Sublist ids → Seats c s ids'

namespace NodeTable

variable {rule : NodeRule} {t : NodeTable} {p q : Place Seat} {k id root : NodeId}
variable {tree : Subtree} {ids : List NodeId}

/-- A table of nodes that a rule allows. -/
def Obeys (rule : NodeRule) (t : NodeTable) : Prop :=
  ∀ (k : NodeId) (n : Node), t[k]? = some n → rule.Allows n

/-- Some nodes may be in the seat that a place is in. -/
def Takes (rule : NodeRule) (t : NodeTable) (p : Place Seat) (ids : List NodeId) : Prop :=
  ∀ n, t[p.owner]? = some n → rule.Seats n.classifier p.feature ids

theorem obeys_empty (rule : NodeRule) : Obeys rule ∅ := fun k n hn => by simp at hn

theorem takes_withSeated {owner : NodeId} {s : Seat} {ids' : List NodeId} (h : t.Takes rule p ids) :
    (t.withSeated owner s ids').Takes rule p ids := by
  intro n hn
  rw [lookup_withSeated] at hn
  obtain ⟨n', hn', rfl⟩ := Option.map_eq_some_iff.1 hn
  split
  · cases s <;> exact h n' hn'
  · exact h n' hn'

theorem takes_planted {above : Option NodeId} (hv : t.Vacant tree)
    (hd : (tree.nodes.map Node.id).Nodup) (ho : p.owner ∈ t) (h : t.Takes rule p ids) :
    (t.planted tree above).Takes rule p ids := by
  intro n hn
  rw [lookup_planted, Option.or_eq_some_iff] at hn
  rcases hn with hn | ⟨-, hn⟩
  · exact absurd ho (hv.notMem ((mem_table hd).1 (mem_of_lookup hn)))
  · exact h n hn

namespace Obeys

variable (h : t.Obeys rule)

include h

/-- What is in a seat may be there. -/
theorem takes_seated (p : Place Seat) : t.Takes rule p (t.seated p.owner p.feature) := by
  intro n hn
  rw [seated_eq hn]
  exact rule.seated (h _ n hn) p.feature

/-- Where a node is edited so that it stays allowed, all nodes stay allowed. -/
theorem edited {step : Node → Node}
    (hstep : ∀ n, t[id]? = some n → rule.Allows n → rule.Allows (step n).prune) :
    (t.edited id step).Obeys rule := by
  intro k n hn
  rw [lookup_edited] at hn
  obtain ⟨n', hn', rfl⟩ := Option.map_eq_some_iff.1 hn
  split
  · next hid => exact hstep n' (hid ▸ hn') (h k n' hn')
  · exact h k n' hn'

theorem withSeated (hs : t.Takes rule p ids) : (t.withSeated p.owner p.feature ids).Obeys rule :=
  h.edited fun n hn hallows => rule.withSeated hallows (hs n hn)

theorem removed : (t.removed p).Obeys rule :=
  h.withSeated fun n hn => rule.sublist (h.takes_seated p n hn) (List.eraseIdx_sublist _ _)

theorem adopted {above : NodeId} : (t.adopted id above).Obeys rule := by
  intro k n hn
  rw [lookup_adopted] at hn
  obtain ⟨n', hn', rfl⟩ := Option.map_eq_some_iff.1 hn
  split
  · exact rule.linked (h k n' hn') _
  · exact h k n' hn'

theorem felled : (t.felled root).Obeys rule := by
  intro k n hn
  rw [lookup_felled] at hn
  split at hn
  · cases hn
  · exact h k n hn

theorem planted {above : Option NodeId} (hd : (tree.nodes.map Node.id).Nodup)
    (htree : ∀ n ∈ tree.nodes, rule.Allows n) : (t.planted tree above).Obeys rule := by
  intro k n hn
  rw [lookup_planted, Option.or_eq_some_iff] at hn
  rcases hn with hn | ⟨-, hn⟩
  · rw [Subtree.lookup_table hd] at hn
    obtain ⟨n', hn', rfl⟩ := Option.map_eq_some_iff.1 hn
    have hn' := htree n' ((lookup_ofList_eq_some hd).1 hn').1
    split
    · exact rule.linked hn' _
    · exact hn'
  · exact h k n hn

end Obeys

end NodeTable

namespace Reshaping

variable {rule : NodeRule} {t : NodeTable} {r : Reshaping}

/-- What a reshaping puts into seats may be there. -/
def Suits (rule : NodeRule) (t : NodeTable) : Reshaping → Prop
  | attach p tree =>
    t.Takes rule p ((t.seated p.owner p.feature).insertIdx p.index tree.root.id)
  | exchange p tree _ => t.Takes rule p ((t.seated p.owner p.feature).set p.index tree.root.id)
  | move target source id =>
    t.Takes rule target
      (((t.removed source).seated target.owner target.feature).insertIdx target.index id)
  | moveAndReplace target _ id _ =>
    t.Takes rule target ((t.seated target.owner target.feature).set target.index id)
  | _ => True

/-- A reshaping keeps a rule if all that it brings is allowed and may be where it is put. -/
theorem obeys_outcome (h : t.Obeys rule) (hr : r.Fits t) (hsuits : r.Suits rule t)
    (htree : ∀ tree ∈ r.incoming, tree.IsTree)
    (hnew : ∀ tree ∈ r.incoming, ∀ n ∈ tree.nodes, rule.Allows n) :
    (r.outcome t).Obeys rule := by
  have hplanted {t' : NodeTable} {tree : Subtree} {above : Option NodeId} (h' : t'.Obeys rule)
      (hin : tree ∈ r.incoming) : (t'.planted tree above).Obeys rule :=
    h'.planted (htree tree hin).distinct (hnew tree hin)
  cases r with
  | plant tree => exact hplanted h List.mem_cons_self
  | fell root => exact h.felled
  | attach p tree =>
    obtain ⟨hv, ho, -⟩ := hr
    have hd := (htree tree List.mem_cons_self).distinct
    -- Who is to get the subtree is not one of its nodes.
    have hseated : (t.planted tree (some p.owner)).seated p.owner p.feature =
        t.seated p.owner p.feature := NodeTable.seated_planted hv hd ho
    refine (hplanted h List.mem_cons_self).withSeated (p := p) ?_
    rw [hseated]
    exact NodeTable.takes_planted hv hd ho hsuits
  | detach p old => exact h.removed.felled
  | exchange p tree old => exact hplanted (h.withSeated hsuits).felled List.mem_cons_self
  | move target source id =>
    exact (h.removed.withSeated (NodeTable.takes_withSeated hsuits)).adopted
  | moveAndReplace target source id old => exact (h.withSeated hsuits).removed.felled.adopted

end Reshaping

/-- A change that reshapes a forest keeps a rule if all that it brings is allowed and may be where
    it is put. -/
theorem Change.obeys_of_reshaping {rule : NodeRule} {m : Model} {c : Change} {r : Reshaping}
    (ht : m.nodes.Treelike) (hc : c.Fits m) (hr : c.reshaping? = some r) (h : m.nodes.Obeys rule)
    (hsuits : r.Suits rule m.nodes) (htree : ∀ tree ∈ c.incoming, tree.IsTree)
    (hnew : ∀ tree ∈ c.incoming, ∀ n ∈ tree.nodes, rule.Allows n) :
    (c.outcome m.nodes).Obeys rule := by
  rw [outcome_of_reshaping hr]
  rw [incoming_of_reshaping hr] at htree hnew
  exact Reshaping.obeys_outcome h (fits_of_reshaping ht hc hr) hsuits htree hnew

end DeltaForest
