import DeltaForest.Proofs.Outcome

/-!
# Well-formed forests

A forest is well-formed if its table is made of trees and its partitions are listed, each once: they
are the nodes without one above. A change that fits keeps a forest well-formed
(`WellFormed.changed`), whichever of the kinds of changes it is. Since such a change is also
performed to its end, applying a change either gives the forest that the change says (`apply_eq_ok`)
or leaves everything as it was (`apply_error`).
-/

namespace DeltaForest

namespace NodeTable

variable {t t' : NodeTable} {k id : NodeId} {step : Node → Node}

/-! ## Edits of single nodes -/

/-- An edit of a node that leaves it where it is. -/
structure Steady (step : Node → Node) : Prop where
  id : ∀ n, (step n).id = n.id
  parent : ∀ n, (step n).parent = n.parent
  containments : ∀ n, (step n).containments = n.containments
  annotations : ∀ n, (step n).annotations = n.annotations

namespace Steady

variable (h : Steady step)

include h

theorem owned (n : Node) : (step n).owned = n.owned := by
  rw [Node.owned, Node.owned, h.containments, h.annotations]

theorem above?_edited : (t.edited id step).above? k = t.above? k := by
  rw [above?, lookup_edited, above?]
  cases t[k]? with
  | none => rfl
  | some n => by_cases hk : id = k <;> simp [hk, h.parent]

theorem holdings_edited (q : NodeId) : (t.edited id step).holdings q k = t.holdings q k := by
  rw [holdings, lookup_edited, holdings]
  cases t[q]? with
  | none => rfl
  | some n => by_cases hq : id = q <;> simp [hq, h.owned]

end Steady

theorem Treelike.edited (ht : t.Treelike) (h : Steady step) : (t.edited id step).Treelike where
  linked q k := by rw [h.holdings_edited, h.above?_edited, ht.linked]
  grounded k := (ht.grounded k).mono fun k q hq => by rwa [h.above?_edited] at hq
  keyed k n hn := by
    rw [lookup_edited] at hn
    obtain ⟨m, hm, rfl⟩ := Option.map_eq_some_iff.1 hn
    split
    · exact (h.id m).trans (ht.keyed k m hm)
    · exact ht.keyed k m hm

theorem steady_withEntries (r : Handle) (es : List Entry) :
    Steady (fun n => n.withEntries r es) where
  id _ := rfl
  parent _ := rfl
  containments _ := rfl
  annotations _ := rfl

theorem steady_self : Steady (fun n => n) where
  id _ := rfl
  parent _ := rfl
  containments _ := rfl
  annotations _ := rfl

/-- Single nodes of the first table have been edited, and the second one is what came of it. -/
inductive Retouched (t : NodeTable) : NodeTable → Prop
  | self : Retouched t t
  | edited {t' : NodeTable} {id : NodeId} {step : Node → Node} :
    Retouched t t' → Steady step → Retouched t (t'.edited id step)

theorem Retouched.treelike (h : Retouched t t') (ht : t.Treelike) : t'.Treelike := by
  induction h with
  | self => exact ht
  | edited _ hstep ih => exact ih.edited hstep

theorem Retouched.isTop_iff (h : Retouched t t') : t'.IsTop k ↔ t.IsTop k := by
  induction h with
  | self => rfl
  | edited _ hstep ih => rw [← ih, IsTop, IsTop, mem_edited, hstep.above?_edited]

end NodeTable

/-! ## Changes of single nodes -/

namespace Change

variable {t : NodeTable} {c : Change}

/-- A change that does not reshape a forest edits single nodes. -/
theorem retouched_outcome (h : c.reshaping? = none) : t.Retouched (c.outcome t) := by
  have hentries {t' : NodeTable} {place : Place Handle} {es : List Entry}
      (h : t.Retouched t') : t.Retouched (t'.withEntries place es) :=
    h.edited (NodeTable.steady_withEntries _ _)
  have hedit {place : Place Handle} {step : Entry → Entry} :
      t.Retouched (t.entryEdited place step) := by
    rw [NodeTable.entryEdited]
    split
    · exact hentries .self
    · exact .self
  -- Each of these changes edits one node, or one list of entries after the other.
  cases c <;> cases h
  case classifierChanged | propertyAdded | propertyChanged | propertyDeleted =>
    exact .edited .self ⟨fun _ => rfl, fun _ => rfl, fun _ => rfl, fun _ => rfl⟩
  case entryAdded | entryDeleted | entryChanged => exact hentries .self
  case entryMoved => exact hentries (hentries .self)
  case entryMovedAndReplaced => exact hentries (hentries (.edited .self NodeTable.steady_self))
  all_goals exact hedit

theorem roots_of_content (h : c.reshaping? = none) (partitions : List NodeId) :
    c.roots partitions = partitions := by
  cases c <;> cases h <;> rfl

end Change

/-! ## Forests -/

namespace Forest

/-- Nodes that are trees and a list of their tops. -/
structure WellFormed (f : Forest) : Prop where
  treelike : f.nodes.Treelike
  distinct : f.partitions.Nodup
  roots : ∀ k, k ∈ f.partitions ↔ f.nodes.IsTop k

theorem wellFormed_empty (types : TypeRegistry) : (Forest.empty types).WellFormed where
  treelike :=
    { linked := fun p k => by simp [Forest.empty, NodeTable.holdings, NodeTable.above?]
      grounded := fun k => .top (by simp [Forest.empty, NodeTable.above?])
      keyed := fun k n hn => by simp [Forest.empty] at hn }
  distinct := List.nodup_nil
  roots k := by simp [Forest.empty, NodeTable.IsTop]

variable {f f' : Forest} {c : Change}

/-- The list of partitions keeps up with a reshaping. -/
theorem WellFormed.roots_reshaping {r : Reshaping} (h : f.WellFormed) (hr : r.Fits f.nodes) :
    (r.roots f.partitions).Nodup ∧
      ∀ k, k ∈ r.roots f.partitions ↔ r.Tops f.nodes k := by
  cases r with
  | plant tree =>
    -- A partition is a node that is there, and the root of what comes is not.
    have hnew : tree.root.id ∉ f.partitions := fun hmem =>
      NodeTable.Vacant.root_notMem hr ((h.roots _).1 hmem).1
    constructor
    · show (f.partitions ++ [tree.root.id]).Nodup
      rw [List.nodup_append]
      refine ⟨h.distinct, List.nodup_singleton _, fun k hk k' hk' heq => ?_⟩
      rw [List.mem_singleton.1 hk'] at heq
      exact hnew (heq ▸ hk)
    · intro k
      show k ∈ f.partitions ++ [tree.root.id] ↔ k = tree.root.id ∨ f.nodes.IsTop k
      rw [List.mem_append, h.roots, List.mem_singleton, or_comm]
  | fell root =>
    refine ⟨h.distinct.filter _, fun k => ?_⟩
    show k ∈ f.partitions.filter (· ≠ root) ↔ k ≠ root ∧ f.nodes.IsTop k
    rw [List.mem_filter, h.roots, and_comm, decide_eq_true_eq]
  | _ => exact ⟨h.distinct, h.roots⟩

/-- A change that fits keeps a forest well-formed. -/
theorem WellFormed.changed (h : f.WellFormed) (hc : c.Fits f.model)
    (htree : ∀ tree ∈ c.incoming, tree.IsTree) : (f.changed c).WellFormed := by
  -- Either no node comes, goes or moves, or the change reshapes the tree.
  cases hr : c.reshaping? with
  | none =>
    have hretouched := Change.retouched_outcome (t := f.nodes) hr
    have hroots : (f.changed c).partitions = f.partitions := Change.roots_of_content hr _
    exact
      { treelike := hretouched.treelike h.treelike
        distinct := hroots.symm ▸ h.distinct
        roots := fun k => by rw [hroots, h.roots]; exact hretouched.isTop_iff.symm }
  | some r =>
    have hfits := Change.fits_of_reshaping h.treelike hc hr
    have htree' := Change.incoming_of_reshaping hr ▸ htree
    have hnodes : (f.changed c).nodes = r.outcome f.nodes := Change.outcome_of_reshaping hr _
    have hroots : (f.changed c).partitions = r.roots f.partitions :=
      Change.roots_of_reshaping hr _
    obtain ⟨hdistinct, htops⟩ := h.roots_reshaping hfits
    exact
      { treelike := hnodes ▸ Reshaping.treelike_outcome h.treelike hfits htree'
        distinct := hroots ▸ hdistinct
        roots := fun k => by
          rw [hroots, hnodes, htops, Reshaping.isTop_outcome h.treelike hfits htree'] }

namespace Action

/-- What applying a change comes to: the forest is changed if planning again what the change
    stands for gives the very same change, and otherwise left alone. -/
theorem apply_eq (ht : f.nodes.Treelike) (htree : ∀ tree ∈ c.incoming, tree.IsTree) :
    apply c f = match f.model.replan c with
      | .error fault => .error fault f
      | .ok planned =>
        if planned = c then .ok () (f.changed c) else .error (.staleChange c.kind) f := by
  cases hplan : f.model.replan c with
  | error fault => simp [apply, ask, hplan, bind, EStateM.bind]
  | ok planned =>
    by_cases heq : planned = c
    · subst heq
      simp [apply, ask, hplan, bind, EStateM.bind,
        perform_eq ht (Model.fits_of_replan hplan) htree]
    · simp [apply, ask, hplan, bind, EStateM.bind, heq]
      rfl

/-- A change is made if planning comes to it again, and then to its end. -/
theorem apply_eq_ok (ht : f.nodes.Treelike) (htree : ∀ tree ∈ c.incoming, tree.IsTree) :
    apply c f = .ok () f' ↔ f.model.replan c = .ok c ∧ f' = f.changed c := by
  rw [apply_eq ht htree]
  cases hplan : f.model.replan c with
  | error fault => simp
  | ok planned =>
    by_cases heq : planned = c
    · simp [heq, eq_comm]
    · simp [heq]

/-- A change that is not made leaves the forest alone. -/
theorem apply_error (ht : f.nodes.Treelike) (htree : ∀ tree ∈ c.incoming, tree.IsTree)
    {fault : Fault} (he : apply c f = .error fault f') : f' = f := by
  rw [apply_eq ht htree] at he
  split at he
  · exact (EStateM.Result.error.inj he).2.symm
  · split at he
    · cases he
    · exact (EStateM.Result.error.inj he).2.symm

end Action

end Forest

end DeltaForest
