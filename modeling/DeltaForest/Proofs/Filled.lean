import DeltaForest.Proofs.Relayed

/-!
# Lists that hold something

A message leaves empty lists out, so the nodes that it brings arrive without them. The sender keeps
them until the node is edited. A change is therefore the very same where it arrives, and not only
one that looks the same, if and only if it brings no node with an empty list
(`Change.outcome_travelled_iff`).
-/

namespace DeltaForest

/-- A node all of whose lists hold something. -/
structure Node.Filled (n : Node) : Prop where
  containments : ∀ c : Handle, n.containments[c]? ≠ some []
  references : ∀ r : Handle, n.references[r]? ≠ some []

/-- A change that brings nodes only all of whose lists hold something. -/
def Change.Filled (c : Change) : Prop := ∀ tree ∈ c.incoming, ∀ n ∈ tree.nodes, n.Filled

/-- Nothing is left out if every list holds something. -/
theorem Node.filter_eq_self_iff {α : Type} {m : FeatureMap (List α)} :
    (m.filter fun _ l => !l.isEmpty) = m ↔ ∀ h : Handle, m[h]? ≠ some [] := by
  constructor
  · -- The filter takes an empty list out, so nothing that stays is empty.
    intro heq h hempty
    have hlookup := lookup_filter_isEmpty m h
    rw [heq, hempty] at hlookup
    cases hlookup
  · intro hfull
    ext1 h
    rw [lookup_filter_isEmpty]
    cases hm : m[h]? with
    | none => rfl
    | some l =>
      cases l with
      | nil => exact absurd hm (hfull h)
      | cons a l => rfl

theorem Node.prune_eq_self_iff {n : Node} : n.prune = n ↔ n.Filled := by
  constructor
  · intro h
    exact ⟨filter_eq_self_iff.1 (congrArg Node.containments h),
      filter_eq_self_iff.1 (congrArg Node.references h)⟩
  · intro h
    exact eq_of_fields rfl rfl rfl rfl (filter_eq_self_iff.2 h.containments)
      (filter_eq_self_iff.2 h.references) rfl

theorem Node.filled_prune (n : Node) : n.prune.Filled := prune_eq_self_iff.1 n.prune_prune

/-! ## Where nodes arrive -/

theorem Subtree.IsTree.travelled {s : Subtree} (h : s.IsTree) : s.travelled.IsTree :=
  isTree_ofList (ofList_travelled h)

namespace NodeTable

variable {t : NodeTable} {tree : Subtree} {n : Node}

/-- A planted node is as it came, but for the link of the root. -/
theorem lookup_planted_of_mem (above : Option NodeId) (hd : (tree.nodes.map Node.id).Nodup)
    (hn : n ∈ tree.nodes) :
    ∃ parent, (t.planted tree above)[n.id]? = some { n with parent := parent } := by
  rw [lookup_planted, Subtree.lookup_table hd, (lookup_ofList_eq_some hd).2 ⟨hn, rfl⟩]
  by_cases hroot : n.id = tree.root.id
  · exact ⟨above, by simp [hroot]⟩
  · exact ⟨n.parent, by simp [hroot]⟩

end NodeTable

/-- What comes with a reshaping stands in the table as it came, but for a link. -/
theorem Reshaping.lookup_incoming {r : Reshaping} {t : NodeTable} {tree : Subtree} {n : Node}
    (hr : r.Fits t) (htree : tree.IsTree) (hin : tree ∈ r.incoming) (hn : n ∈ tree.nodes) :
    ∃ parent, (r.outcome t)[n.id]? = some { n with parent := parent } := by
  cases r
  case plant =>
    obtain rfl := List.mem_singleton.1 hin
    exact NodeTable.lookup_planted_of_mem _ htree.distinct hn
  case attach p _ =>
    obtain rfl := List.mem_singleton.1 hin
    obtain ⟨hv, ho, -⟩ := hr
    obtain ⟨parent, hlookup⟩ :=
      NodeTable.lookup_planted_of_mem (t := t) (some p.owner) htree.distinct hn
    -- The owner was there before, so it is not among the nodes that come.
    have howner : p.owner ≠ n.id := fun heq => hv n hn (heq ▸ ho)
    refine ⟨parent, ?_⟩
    rw [outcome, NodeTable.attached, NodeTable.inserted, NodeTable.withSeated,
      NodeTable.lookup_edited, hlookup, Option.map_some, if_neg howner]
  case exchange =>
    obtain rfl := List.mem_singleton.1 hin
    exact NodeTable.lookup_planted_of_mem _ htree.distinct hn
  all_goals exact absurd hin List.not_mem_nil

namespace Change

variable {m : Model} {c : Change}

/-- What comes with a change stands in the table as it came, but for a link. -/
theorem lookup_incoming {tree : Subtree} {n : Node} (ht : m.nodes.Treelike) (hc : c.Fits m)
    (htree : tree.IsTree) (hin : tree ∈ c.incoming) (hn : n ∈ tree.nodes) :
    ∃ parent, (c.outcome m.nodes)[n.id]? = some { n with parent := parent } := by
  cases hr : c.reshaping? with
  | none => cases c <;> cases hr <;> exact absurd hin List.not_mem_nil
  | some r =>
    rw [outcome_of_reshaping hr]
    rw [incoming_of_reshaping hr] at hin
    exact Reshaping.lookup_incoming (fits_of_reshaping ht hc hr) htree hin hn

theorem incoming_travelled : c.travelled.incoming = c.incoming.map Subtree.travelled := by
  cases c <;> rfl

/-- Of the subtrees that go only the root counts. -/
theorem outcome_oldPruned (t : NodeTable) : c.oldPruned.outcome t = c.outcome t := by
  cases c <;> rfl

theorem roots_travelled (partitions : List NodeId) :
    c.travelled.roots partitions = c.roots partitions :=
  roots_mapTrees Subtree.id_root_travelled (fun _ => rfl) partitions c

/-- If all lists hold something, nothing is lost on the way. -/
theorem Filled.outcome_travelled (h : c.Filled) (t : NodeTable) :
    c.travelled.outcome t = c.outcome t := by
  have hplanted {t : NodeTable} {tree : Subtree} {above : Option NodeId}
      (hin : tree ∈ c.incoming) : t.planted tree.travelled above = t.planted tree above := by
    -- A full node loses nothing when it is pruned.
    have hprune : ∀ n ∈ tree.nodes, n.prune = n := fun n hn =>
      Node.prune_eq_self_iff.2 (h tree hin n hn)
    have hroot : { tree.travelled.root with parent := above } =
        { tree.root with parent := above } :=
      congrArg (fun n : Node => { n with parent := above }) (hprune _ List.mem_cons_self)
    have hdescendants : tree.travelled.descendants = tree.descendants :=
      (List.map_congr_left fun n hn => hprune n (List.mem_cons_of_mem _ hn)).trans (List.map_id _)
    rw [NodeTable.planted, hroot, hdescendants]
    rfl
  cases c
  case partitionAdded => exact hplanted List.mem_cons_self
  case childAdded | annotationAdded =>
    exact congrArg (NodeTable.inserted · _ _) (hplanted List.mem_cons_self)
  case childReplaced | annotationReplaced => exact hplanted List.mem_cons_self
  all_goals rfl

/-- If the outcome is the very same, no list was empty: every node that came has arrived without its
    empty lists. -/
theorem filled_of_outcome_travelled (ht : m.nodes.Treelike) (hc : m.replan c = .ok c)
    (htree : ∀ tree ∈ c.incoming, tree.IsTree)
    (hsame : c.travelled.outcome m.nodes = c.outcome m.nodes) : c.Filled := by
  intro tree hin n hn
  have hin' : tree.travelled ∈ c.travelled.incoming :=
    incoming_travelled ▸ List.mem_map_of_mem hin
  obtain ⟨n', hn', hid, hfilled⟩ :
      ∃ n' ∈ tree.travelled.nodes, n'.id = n.id ∧ n'.Filled := by
    rcases List.mem_cons.1 hn with rfl | hn
    · have hroot := tree.root.filled_prune
      exact ⟨_, List.mem_cons_self, rfl, hroot.containments, hroot.references⟩
    · exact ⟨n.prune, List.mem_cons_of_mem _ (List.mem_map_of_mem hn), rfl, n.filled_prune⟩
  -- Both outcomes hold the node under its id, the one as it came and the other without empty lists.
  obtain ⟨parent, hlookup⟩ :=
    lookup_incoming ht (Model.fits_of_replan hc) (htree tree hin) hin hn
  obtain ⟨parent', hlookup'⟩ :=
    lookup_incoming ht (Model.fits_of_replan (Model.replan_travelled hc)) (htree tree hin).travelled
      hin' hn'
  rw [hsame, hid, hlookup] at hlookup'
  have hfields := Option.some.inj hlookup'
  exact ⟨fun c => (congrArg Node.containments hfields :) ▸ hfilled.containments c,
    fun r => (congrArg Node.references hfields :) ▸ hfilled.references r⟩

/-- A change is the very same where it arrives if and only if it brings no empty list. -/
theorem outcome_travelled_iff (ht : m.nodes.Treelike) (hc : m.replan c = .ok c)
    (htree : ∀ tree ∈ c.incoming, tree.IsTree) :
    c.travelled.outcome m.nodes = c.outcome m.nodes ↔ c.Filled :=
  ⟨filled_of_outcome_travelled ht hc htree, fun h => h.outcome_travelled _⟩

end Change

/-! ## Changes one after the other -/

namespace Forest

variable {types : TypeRegistry} {f : Forest} {c : Change} {cs : List Change}

theorem changed_travelled (h : c.travelled.outcome f.nodes = c.outcome f.nodes) :
    f.changed c.travelled = f.changed c :=
  congrArg₂ (fun nodes partitions => { f with nodes := nodes, partitions := partitions }) h
    (Change.roots_travelled _)

/-- Changes are the very same where they arrive, every one of them, if and only if none of them
    brings an empty list. -/
theorem changedBy_travelled_iff (hf : f.Proper types) (ha : f.Accepts cs)
    (htrees : BringsTrees cs) : (∀ k ≤ cs.length,
      (f.changedBy ((cs.take k).map Change.travelled)).nodes = (f.changedBy (cs.take k)).nodes) ↔
        ∀ c ∈ cs, c.Filled := by
  induction cs generalizing f with
  | nil =>
    refine iff_of_true (fun k hk => ?_) (List.forall_mem_nil _)
    rw [List.take_nil]
    rfl
  | cons c cs ih =>
    obtain ⟨hc, hcs⟩ := ha
    obtain ⟨hfirst, hrest⟩ := List.forall_mem_cons.1 htrees
    have hih := ih (hf.changed hc hfirst) hcs hrest
    have hstep := Change.outcome_travelled_iff hf.wellFormed.treelike hc hfirst
    rw [List.forall_mem_cons, ← hih, ← hstep]
    -- Once the first change is the same, the others start from the same forest.
    constructor
    · intro hall
      have hone : c.travelled.outcome f.nodes = c.outcome f.nodes :=
        hall 1 (Nat.succ_le_succ (Nat.zero_le _))
      refine ⟨hone, fun k hk => ?_⟩
      have hk' := hall (k + 1) (Nat.succ_le_succ hk)
      rwa [List.take_succ_cons, List.map_cons, changedBy, List.foldl_cons,
        changed_travelled hone] at hk'
    · rintro ⟨hone, hall⟩ (_ | k) hk
      · rfl
      · rw [List.take_succ_cons, List.map_cons, changedBy, List.foldl_cons, changed_travelled hone]
        exact hall k (Nat.le_of_succ_le_succ hk)

end Forest

end DeltaForest
