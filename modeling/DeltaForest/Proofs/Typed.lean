import DeltaForest.Proofs.Reachable
import DeltaForest.Proofs.Registered
import DeltaForest.Proofs.Ruled

/-!
# Typed nodes

Whatever comes about, the classifiers of nodes are registered, and so are the containments in which
nodes have children (`Site.Reachable.typed`). A change names the place that a child is moved from,
and the classifier that a node had; that these can be told to others by their pointers follows from
here.
-/

namespace DeltaForest

variable {types : TypeRegistry}

/-- A list of owned nodes that there can be. -/
def Seat.Registered (types : TypeRegistry) : Seat → Prop
  | .containment c => ∃ info, types.featureAt .containment c = .ok info
  | .annotations => True

/-- A node with a registered classifier that owns others in registered containments only. -/
structure Node.Typed (types : TypeRegistry) (n : Node) : Prop where
  classifier : ∃ info, types.classifierAt n.classifier = .ok info
  seats : ∀ s, n.seated s ≠ [] → s.Registered types

/-- Typed nodes by themselves: a list that is not registered stays empty. -/
def NodeRule.typed (types : TypeRegistry) : NodeRule where
  Allows n := n.Typed types
  Seats _ s ids := ids ≠ [] → s.Registered types
  linked h parent := ⟨h.classifier, fun s hs => h.seats s (by cases s <;> exact hs)⟩
  seated h := h.seats
  withSeated {n s ids} h hs := by
    refine ⟨by cases s <;> exact h.classifier, fun s' hs' => ?_⟩
    rw [Node.seated_prune, Node.seated_withSeated] at hs'
    split at hs'
    · next heq => exact heq ▸ hs hs'
    · exact h.seats s' hs'
  sublist h hsub hne := h fun hnil => hne (List.sublist_nil.1 (hnil ▸ hsub))

namespace NodeTable

variable {t : NodeTable} {id : NodeId} {p : Place Seat}

/-- A table of typed nodes. -/
def Typed (types : TypeRegistry) (t : NodeTable) : Prop :=
  ∀ (k : NodeId) (n : Node), t[k]? = some n → n.Typed types

theorem Typed.obeys (h : t.Typed types) : t.Obeys (.typed types) := h

/-- Where somebody has a place there is a registered list. -/
theorem Typed.registered_of_at? (h : t.Typed types) (hp : t.at? p = some id) :
    p.feature.Registered types := by
  obtain ⟨n, hn⟩ := mem_iff_exists.1 (mem_of_at? hp)
  rw [at?, seated_eq hn] at hp
  exact (h _ n hn).seats _ (List.ne_nil_of_mem (List.mem_of_getElem? hp))

end NodeTable

/-! ## Changes -/

namespace Reshaping

/-- Where something comes to stand, there is a registered list. -/
def Registered (types : TypeRegistry) : Reshaping → Prop
  | attach p _ | move p _ _ => p.feature.Registered types
  | _ => True

variable {t : NodeTable} {r : Reshaping}

/-- What comes to stand where another node was stands in a registered list. -/
theorem suits_typed (h : t.Typed types) (hr : r.Fits t) (hseat : r.Registered types) :
    r.Suits (.typed types) t := by
  cases r with
  | attach | move => exact fun _ _ _ => hseat
  | exchange => exact fun _ _ _ => h.registered_of_at? hr.1
  | moveAndReplace => exact fun _ _ _ => h.registered_of_at? hr.1
  | _ => trivial

end Reshaping

/-- What may enter is typed. -/
theorem Model.typed_of_checkNew {m : Model} {tree : Subtree} (h : m.checkNew tree = .ok ()) :
    ∀ n ∈ tree.nodes, n.Typed m.types := by
  intro n hn
  obtain ⟨hclassifier, -, hcontainments, -⟩ := checkNewNode_eq_ok.1 ((checkNew_eq_ok.1 h).2 n hn)
  refine ⟨hclassifier, fun s hs => ?_⟩
  cases s with
  | annotations => trivial
  | containment c =>
    rw [Node.seated, Node.children] at hs
    cases hids : n.containments[c]? with
    | none => simp [hids] at hs
    | some ids =>
      obtain ⟨info, hinfo, -⟩ := bind_eq_ok.1 (hcontainments c ids hids)
      exact ⟨info, hinfo⟩

namespace Change

variable {m : Model} {c : Change} {r : Reshaping}

/-- What comes with a change that fits may enter. -/
theorem checkNew_of_fits (hc : c.Fits m) : ∀ tree ∈ c.incoming, m.checkNew tree = .ok () := by
  cases c
  case partitionAdded | childAdded | annotationAdded =>
    exact List.forall_mem_singleton.2 hc.2
  case childReplaced | annotationReplaced => exact List.forall_mem_singleton.2 hc.2.1
  all_goals exact List.forall_mem_nil _

theorem vacant_of_fits (hc : c.Fits m) : ∀ tree ∈ c.incoming, m.nodes.Vacant tree :=
  fun tree hin => Model.vacant_of_checkNew (checkNew_of_fits hc tree hin)

/-- A change that fits puts nodes into registered lists only. -/
theorem registered_of_fits (hc : c.Fits m) (h : c.reshaping? = some r) : r.Registered m.types := by
  cases c <;> cases h
  case childAdded | childMoved =>
    obtain ⟨⟨n, info, hslot, -⟩, -⟩ := hc
    exact ⟨info, (Model.slot_eq_ok.1 hslot).1⟩
  all_goals trivial

/-- A change that does not reshape a forest changes classifiers at most. -/
theorem typed_of_content (hnodes : m.nodes.Typed m.types) (hc : c.Fits m)
    (h : c.reshaping? = none) : (c.outcome m.nodes).Typed m.types := by
  by_cases hcategory : c.category = .classifier
  · -- The new classifier is registered, and nothing has been moved.
    rcases c <;> rcases hcategory
    refine hnodes.obeys.edited fun n _ hn => ⟨hc.1, fun s hs => hn.seats s ?_⟩
    rw [Node.seated_prune] at hs
    rcases s <;> exact hs
  · intro k n hn
    -- Classifier and seats of each node are what they were.
    have hview : (c.outcome m.nodes)[k]?.map (fun n => (n.classifier, n.seated)) =
        m.nodes[k]?.map fun n => (n.classifier, n.seated) :=
      view_of_content (fun n => Prod.ext rfl (funext n.seated_prune))
        (fun _ _ _ => Prod.ext rfl (funext fun s => by rcases s <;> rfl)) h hcategory k
    rw [hn] at hview
    obtain ⟨n', hn', hsame⟩ := Option.map_eq_some_iff.1 hview.symm
    obtain ⟨hclassifier, hseated⟩ := Prod.mk.inj hsame
    have hold := hnodes k n' hn'
    exact ⟨hclassifier ▸ hold.classifier, fun s hs => hold.seats s (by rwa [hseated])⟩

/-- A change that fits keeps nodes typed. -/
theorem typed_outcome (ht : m.nodes.Treelike) (hnodes : m.nodes.Typed m.types) (hc : c.Fits m)
    (htree : ∀ tree ∈ c.incoming, tree.IsTree) : (c.outcome m.nodes).Typed m.types := by
  cases hr : c.reshaping? with
  | none => exact typed_of_content hnodes hc hr
  | some r =>
    have hsuits := Reshaping.suits_typed hnodes (fits_of_reshaping ht hc hr)
      (registered_of_fits hc hr)
    exact obeys_of_reshaping ht hc hr hnodes.obeys hsuits htree fun tree hin =>
      Model.typed_of_checkNew (checkNew_of_fits hc tree hin)

end Change

/-- In whatever comes about all nodes are typed. -/
theorem Site.Reachable.typed {site : Site} {past : List Checkpoint} {made : List Change}
    (h : Site.Reachable types site past made) : site.forest.nodes.Typed types :=
  (h.invariant (P := NodeTable.Typed types) (Q := fun _ => True)
    (NodeTable.obeys_empty (.typed types))
    (fun f c htypes hwell hnodes _ hc htree => by
      subst htypes
      exact Change.typed_outcome (m := f.model) hwell.treelike hnodes (Model.fits_of_replan hc)
        htree)
    fun _ _ => trivial).1

end DeltaForest
