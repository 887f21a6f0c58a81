import DeltaForest.Proofs.PrunedPlan
import DeltaForest.Proofs.Understood

/-!
# Changes made elsewhere

A change is told to somebody whose nodes look the same. There the message amounts to a change that
differs in nothing that could be seen (`Forest.Alike.relay_command`, `Forest.Alike.relay_event`),
and once it is made, the nodes look the same again (`Forest.Alike.changed`). Every run of changes
made elsewhere consists of such steps.
-/

namespace DeltaForest

open Protocol

/-! ## What has travelled may enter -/

namespace Subtree

variable {s : Subtree} {k : NodeId} {n : Node}

/-- The nodes that arrive are the nodes that were sent, but for empty lists and one link. -/
theorem mem_nodes_travelled (h : n ∈ s.travelled.nodes) :
    ∃ n' ∈ s.nodes, ∃ parent, n = { n'.prune with parent := parent } := by
  rcases List.mem_cons.1 h with rfl | h
  · exact ⟨s.root, List.mem_cons_self, none, rfl⟩
  · obtain ⟨n', hn', rfl⟩ := List.mem_map.1 h
    exact ⟨n', List.mem_cons_of_mem _ hn', n'.parent, rfl⟩

theorem find?_nodes_travelled (h : s.travelled.nodes.find? (·.id = k) = some n) :
    ∃ n', s.nodes.find? (·.id = k) = some n' ∧ n.classifier = n'.classifier := by
  rw [nodes, List.find?_cons] at h ⊢
  by_cases hroot : s.root.id = k
  · rw [id_root_travelled, decide_eq_true hroot] at h
    obtain rfl := Option.some.inj h
    exact ⟨s.root, by simp [hroot], rfl⟩
  · rw [id_root_travelled, decide_eq_false hroot, travelled, List.find?_map] at h
    obtain ⟨n', hn', rfl⟩ := Option.map_eq_some_iff.1 h
    exact ⟨n', by rw [decide_eq_false hroot]; exact hn', rfl⟩

end Subtree

namespace Model

variable {m : Model} {tree : Subtree} {e : Edit} {c : Change}

theorem checkNewNode_travelled {n : Node} (h : m.checkNewNode tree n = .ok ())
    (parent : Option NodeId) :
    m.checkNewNode tree.travelled { n.prune with parent := parent } = .ok () := by
  obtain ⟨hclassifier, hproperties, hcontainments, hreferences, hannotations⟩ :=
    checkNewNode_eq_ok.1 h
  have hkept {α : Type} {l : FeatureMap (List α)} {f : Handle} {as : List α}
      (hf : (l.filter fun _ as => !as.isEmpty)[f]? = some as) : l[f]? = some as := by
    rw [Std.ExtTreeMap.getElem?_filter', Option.filter_eq_some_iff] at hf
    exact hf.1
  rw [checkNewNode_eq_ok, Subtree.ids_travelled]
  refine ⟨hclassifier, hproperties, fun c ids hids => hcontainments c ids (hkept hids),
    fun r es hes => hreferences r es (hkept hes), fun id hid a ha => ?_⟩
  -- An annotation among the nodes arrives with the classifier that has been checked.
  obtain ⟨a', ha', hsame⟩ := Subtree.find?_nodes_travelled ha
  have hcheck := hannotations id hid a' ha'
  rw [Model.checkAnnotation] at hcheck ⊢
  rwa [hsame]

/-- What may enter may enter as it arrives. -/
theorem checkNew_travelled (h : m.checkNew tree = .ok ()) : m.checkNew tree.travelled = .ok () := by
  obtain ⟨hvacant, hnodes⟩ := checkNew_eq_ok.1 h
  refine checkNew_eq_ok.2 ⟨fun n hn => ?_, fun n hn => ?_⟩
  · obtain ⟨n', hn', parent, rfl⟩ := Subtree.mem_nodes_travelled hn
    exact hvacant n' hn'
  · obtain ⟨n', hn', parent, rfl⟩ := Subtree.mem_nodes_travelled hn
    exact checkNewNode_travelled (hnodes n' hn') parent

/-- A change that fits fits as it arrives. -/
theorem replan_travelled (h : m.replan c = .ok c) : m.replan c.travelled = .ok c.travelled := by
  -- Only changes that bring something are others once they have arrived.
  cases c
  case partitionAdded tree =>
    obtain ⟨info, hinfo, hpartition, hnew, -⟩ := planAddPartition_eq_ok.1 h
    exact planAddPartition_eq_ok.2 ⟨info, hinfo, hpartition, checkNew_travelled hnew, rfl⟩
  case childAdded place new =>
    obtain ⟨n, info, hslot, hi, hroom, hnew, -⟩ := planAddChild_eq_ok.1 h
    exact planAddChild_eq_ok.2 ⟨n, info, hslot, hi, hroom, checkNew_travelled hnew, rfl⟩
  case childReplaced place new old =>
    obtain ⟨hat, hnew, gone, hgone, hc⟩ := planReplaceChild_eq_ok.1 h
    obtain ⟨-, -, rfl⟩ := Change.childReplaced.inj hc
    exact planReplaceChild_eq_ok.2 ⟨hat, checkNew_travelled hnew, gone, hgone, rfl⟩
  case annotationAdded place new =>
    obtain ⟨n, hn, hi, hcheck, hnew, -⟩ := planAddAnnotation_eq_ok.1 h
    exact planAddAnnotation_eq_ok.2 ⟨n, hn, hi, hcheck, checkNew_travelled hnew, rfl⟩
  case annotationReplaced place new old =>
    obtain ⟨hat, hcheck, hnew, gone, hgone, hc⟩ := planReplaceAnnotation_eq_ok.1 h
    obtain ⟨-, -, rfl⟩ := Change.annotationReplaced.inj hc
    exact planReplaceAnnotation_eq_ok.2 ⟨hat, hcheck, checkNew_travelled hnew, gone, hgone, rfl⟩
  all_goals exact h

end Model

/-! ## Forests that look the same -/

namespace Forest

variable {types : TypeRegistry} {f g : Forest} {c c' : Change} {cs : List Change}

/-- A forest with some types that is as it should be. -/
structure Proper (types : TypeRegistry) (f : Forest) : Prop where
  typed : f.nodes.Typed types
  wellFormed : f.WellFormed
  types : f.types = types

theorem Proper.changed (h : f.Proper types) (hc : f.model.replan c = .ok c)
    (htree : ∀ tree ∈ c.incoming, tree.IsTree) : (f.changed c).Proper types := by
  obtain ⟨htyped, hwell, rfl⟩ := h
  have hfits := Model.fits_of_replan hc
  exact ⟨Change.typed_outcome (m := f.model) hwell.treelike htyped hfits htree,
    hwell.changed hfits htree, rfl⟩

theorem Proper.changedBy (h : f.Proper types) (ha : f.Accepts cs) (htrees : BringsTrees cs) :
    (f.changedBy cs).Proper types := by
  induction cs generalizing f with
  | nil => exact h
  | cons c cs ih =>
    obtain ⟨hc, hcs⟩ := ha
    obtain ⟨hfirst, hrest⟩ := List.forall_mem_cons.1 htrees
    exact ih (h.changed hc hfirst) hcs hrest

/-- Two forests with the same types and partitions whose nodes look the same. -/
structure Alike (f g : Forest) : Prop where
  types : f.types = g.types
  nodes : f.nodes.Alike g.nodes
  partitions : f.partitions = g.partitions

theorem Alike.pruned_model (h : f.Alike g) : f.model.pruned = g.model.pruned :=
  congrArg₂ Model.mk h.types (NodeTable.alike_iff.1 h.nodes)

/-- Forests that look the same still do when changes have been made that say the same. -/
theorem Alike.changed (h : f.Alike g) (hsame : c'.oldPruned = c.travelled.oldPruned) :
    (f.changed c).Alike (g.changed c') where
  types := h.types
  nodes := by
    have htravelled : c'.oldPruned.travelled = c.oldPruned.travelled := by
      rw [hsame, Change.oldPruned_travelled, Change.travelled_travelled]
    rw [NodeTable.alike_iff]
    show (c.outcome f.nodes).pruned = (c'.outcome g.nodes).pruned
    rw [Change.pruned_outcome, Change.pruned_outcome, htravelled, NodeTable.alike_iff.1 h.nodes]
  partitions := by
    have hpruned (c : Change) : c.oldPruned.roots f.partitions = c.roots f.partitions :=
      Change.roots_mapTrees (fun _ => rfl) Subtree.id_root_pruned _ c
    have htravelled : c.travelled.roots f.partitions = c.roots f.partitions :=
      Change.roots_mapTrees Subtree.id_root_travelled (fun _ => rfl) _ c
    show c.roots f.partitions = c'.roots g.partitions
    rw [← h.partitions, ← hpruned c', hsame, hpruned, htravelled]

/-- What can be planned in one of two forests that look the same can be planned in the other one, as
    a change that says the same. -/
theorem Alike.exists_of_pruned (plan : Model → Except Fault Change)
    (hplan : ∀ m, plan m.pruned = Change.oldPruned <$> plan m) (h : f.Alike g)
    (hc : plan f.model = .ok c) : ∃ c', plan g.model = .ok c' ∧ c'.oldPruned = c.oldPruned := by
  have hg := hplan g.model
  rw [← h.pruned_model, hplan, hc] at hg
  cases hc' : plan g.model with
  | error fault => rw [hc'] at hg; cases hg
  | ok c' =>
    rw [hc'] at hg
    exact ⟨c', rfl, (Except.ok.inj hg).symm⟩

section Relay

variable (hl : types.Lawful) (hf : f.Proper types) (hc : f.model.replan c = .ok c)
  (htree : ∀ tree ∈ c.incoming, tree.IsTree)

include hl hf hc htree

/-- The command for a change amounts to the change, as it arrives. -/
theorem exists_command : ∃ command, Command.ofChange types c = .ok command ∧
    command.toChange f.model = .ok c.travelled := by
  obtain ⟨htyped, -, rfl⟩ := hf
  obtain ⟨command, htold, hedit, hkind⟩ :=
    Command.conveys (m := f.model) hl htyped (Model.fits_of_replan hc) htree
  exact ⟨command, htold, Command.toChange_eq_ok.2 ⟨_, hedit, Model.replan_travelled hc,
    (Change.kind_mapTrees _ _ c).trans hkind.symm⟩⟩

/-- The event for a change amounts to the change, as it arrives. -/
theorem exists_event : ∃ event, Event.ofChange types c = .ok event ∧
    event.toChange f.model = .ok c.travelled := by
  obtain ⟨htyped, -, rfl⟩ := hf
  obtain ⟨event, htold, hedit, hkind⟩ :=
    Event.conveys (m := f.model) hl htyped (Model.fits_of_replan hc) htree
  exact ⟨event, htold, Event.toChange_eq_ok.2 ⟨_, hedit, Model.replan_travelled hc,
    (Change.kind_mapTrees _ _ c).trans hkind.symm⟩⟩

/-- The command for a change is understood where the nodes look the same, as a change that says
    the same. -/
theorem Alike.relay_command (h : f.Alike g) : ∃ command, Command.ofChange types c = .ok command ∧
    ∃ c', command.toChange g.model = .ok c' ∧ c'.oldPruned = c.travelled.oldPruned := by
  obtain ⟨command, htold, hchange⟩ := exists_command hl hf hc htree
  exact ⟨command, htold,
    h.exists_of_pruned (command.toChange ·) (Command.toChange_pruned · command) hchange⟩

/-- The event for a change is understood where the nodes look the same, as a change that says the
    same. -/
theorem Alike.relay_event (h : f.Alike g) : ∃ event, Event.ofChange types c = .ok event ∧
    ∃ c', event.toChange g.model = .ok c' ∧ c'.oldPruned = c.travelled.oldPruned := by
  obtain ⟨event, htold, hchange⟩ := exists_event hl hf hc htree
  exact ⟨event, htold,
    h.exists_of_pruned (event.toChange ·) (Event.toChange_pruned · event) hchange⟩

end Relay

end Forest

end DeltaForest
