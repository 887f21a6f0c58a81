import DeltaForest.Proofs.Accounting
import DeltaForest.Proofs.Exported
import DeltaForest.Proofs.Standing

/-!
# Subtrees that cannot leave

Seven edits take a node away with everything below it, and each of them asks the same question last
(`Model.planIn`): does a node outside refer to one inside? Inside is what a walk downwards meets;
for the others all nodes of all partitions are looked through, in an order that nobody fixes. In
whatever comes about the answer is exact (`Site.Reachable.releases`). If no node outside has an
entry for one inside, the subtree leaves as it stands. Otherwise the edit is refused, for a node
that is inside and another one that is outside and refers to it. What refers from inside to inside
leaves together.
-/

namespace DeltaForest

/-! ## References into a subtree -/

namespace NodeTable

/-- A node has an entry for a target. -/
def Refers (t : NodeTable) (referrer target : NodeId) : Prop :=
  ∃ n, t[referrer]? = some n ∧ ∃ r, ∃ e ∈ n.entries r, e.target = some target

/-- A node outside of what is below a root refers to one inside. -/
structure Pins (t : NodeTable) (root target referrer : NodeId) : Prop where
  refers : t.Refers referrer target
  inside : t.Under root target
  outside : ¬t.Under root referrer

/-- What comes of an edit that takes away what is below a root and fails for nothing else. -/
structure Releases (t : NodeTable) (root : NodeId) (change : Subtree → Change)
    (outcome : Except Fault Change) : Prop where
  /-- It is refused if a node outside refers to one inside, and not otherwise, -/
  refused_iff : (∃ target referrer, outcome = .error (.stillReferenced target referrer)) ↔
    ∃ target referrer, t.Pins root target referrer
  /-- and it is refused for two such nodes. -/
  reported : ∀ target referrer, outcome = .error (.stillReferenced target referrer) →
    t.Pins root target referrer
  /-- If there are none, all that is below the root leaves. -/
  passed : (¬∃ target referrer, t.Pins root target referrer) → ∃ tree, t.collect root = .ok tree ∧
    (∀ k, k ∈ tree.nodes.map Node.id ↔ t.Under root k) ∧ outcome = .ok (change tree)

variable {t : NodeTable} {referrer target : NodeId}

theorem refers_iff : t.Refers referrer target ↔
    ∃ n, t[referrer]? = some n ∧ target ∈ n.targets :=
  exists_congr fun n => and_congr_right fun _ => n.mem_targets.symm

end NodeTable

/-! ## Looking through the nodes in any order -/

namespace Model

/-- The first entry from outside into a subtree that is to leave, and who has it. -/
def pinnedIn (order : List (NodeId × Node)) (gone : List NodeId) : Option (NodeId × NodeId) :=
  (order.filter fun (id, _) => id ∉ gone).findSome? fun (id, n) =>
    (n.targets.find? (· ∈ gone)).map (·, id)

/-- A subtree that is to leave, if the nodes are looked through in some order. -/
def leavingIn (m : Model) (order : List (NodeId × Node)) (root : NodeId) :
    Except Fault Subtree := do
  let s ← m.nodes.collect root
  match pinnedIn order (s.nodes.map Node.id) with
  | some (target, referrer) => throw (.stillReferenced target referrer)
  | none => return s

/-- The root of what an edit takes away, and all else that the edit is checked for. -/
def removing? (m : Model) : Edit → Option (NodeId × Except Fault (Subtree → Change))
  | .deletePartition id => some (id, do
      if (← m.node id).parent.isSome then throw (.notAPartition id)
      return .partitionDeleted)
  | .deleteChild place old => some (old, do
      m.childAt place old
      return .childDeleted place)
  | .replaceChild place old new => some (old, do
      m.childAt place old
      m.checkNew new
      return .childReplaced place new)
  | .moveAndReplaceChild target moved old => some (old, do
      m.childAt target old
      let source ← m.locateChild moved
      m.checkNotBelow moved target.owner
      m.checkNotReplacingOwner moved old
      return .childMovedAndReplaced (.between target source) moved)
  | Edit.deleteAnnotation place old => some (old, do
      m.annotationAt place old
      return .annotationDeleted place)
  | Edit.replaceAnnotation place old new => some (old, do
      m.annotationAt place old
      m.checkAnnotation new.root
      m.checkNew new
      return .annotationReplaced place new)
  | Edit.moveAndReplaceAnnotation target moved old => some (old, do
      m.annotationAt target old
      let source ← m.locateAnnotation moved
      m.checkNotBelow moved target.owner
      m.checkNotReplacingOwner moved old
      return .annotationMovedAndReplaced (.between target source) moved)
  | _ => none

/-- The change that an edit amounts to, if the nodes are looked through in some order. -/
def planIn (m : Model) (order : List (NodeId × Node)) (e : Edit) : Except Fault Change :=
  match m.removing? e with
  | some (root, others) => do
    let change ← others
    return change (← m.leavingIn order root)
  | none => m.plan e

variable {m : Model} {e : Edit} {c : Change} {root : NodeId} {change : Subtree → Change}
variable {order : List (NodeId × Node)}

theorem leavingIn_toList : m.leavingIn m.nodes.toList root = m.leaving root :=
  rfl

/-- Planners look through the nodes as they stand in the table. -/
theorem planIn_toList : m.planIn m.nodes.toList e = m.plan e := by
  cases e
  case deletePartition id =>
    simp only [planIn, removing?, plan, planDeletePartition, leavingIn_toList, bind_assoc]
    refine bind_congr fun n => ?_
    split <;> rfl
  case deleteChild | replaceChild | moveAndReplaceChild | deleteAnnotation | replaceAnnotation
      | moveAndReplaceAnnotation =>
    simp only [planIn, removing?, plan, planDeleteChild, planReplaceChild, planMoveAndReplaceChild,
      planDeleteAnnotation, planReplaceAnnotation, planMoveAndReplaceAnnotation, leavingIn_toList,
      bind_assoc, pure_bind]
  all_goals rfl

/-- The root of what is taken away is there. -/
theorem mem_of_removing? (ht : m.nodes.Treelike) (he : m.removing? e = some (root, .ok change)) :
    root ∈ m.nodes := by
  have hseated {p : Place Seat} {id : NodeId} (h : m.nodes.at? p = some id) : id ∈ m.nodes :=
    (ht.mem_of_above? (ht.above?_of_at? h)).1
  -- What goes is named by the edit itself or found at the place that the edit names.
  cases e
  case deletePartition id =>
    obtain ⟨rfl, h⟩ := Prod.mk.inj (Option.some.inj he)
    obtain ⟨n, hn, -⟩ := bind_eq_ok.1 h
    exact mem_of_lookup (node_eq_ok.1 hn)
  case deleteChild | replaceChild | moveAndReplaceChild =>
    obtain ⟨rfl, h⟩ := Prod.mk.inj (Option.some.inj he)
    obtain ⟨_, hat, -⟩ := bind_eq_ok.1 h
    exact hseated (at?_of_childAt hat)
  case deleteAnnotation | replaceAnnotation | moveAndReplaceAnnotation =>
    obtain ⟨rfl, h⟩ := Prod.mk.inj (Option.some.inj he)
    obtain ⟨_, hat, -⟩ := bind_eq_ok.1 h
    exact hseated (annotationAt_eq_ok.1 hat)
  all_goals cases he

/-! ## What is found -/

theorem planIn_of_removing? (he : m.removing? e = some (root, .ok change)) :
    m.planIn order e = change <$> m.leavingIn order root := by
  rw [planIn, he]
  rfl

section Scan

variable {gone : List NodeId} {target referrer : NodeId}

theorem of_pinnedIn (h : pinnedIn order gone = some (target, referrer)) :
    ∃ n, (referrer, n) ∈ order ∧ referrer ∉ gone ∧ target ∈ n.targets ∧ target ∈ gone := by
  obtain ⟨⟨id, n⟩, hmem, hfound⟩ := List.exists_of_findSome?_eq_some h
  obtain ⟨x, hx, heq⟩ := Option.map_eq_some_iff.1 hfound
  cases heq
  obtain ⟨horder, houtside⟩ := List.mem_filter.1 hmem
  exact ⟨n, horder, of_decide_eq_true houtside, List.mem_of_find?_eq_some hx,
    by simpa using List.find?_some hx⟩

theorem pinnedIn_eq_none : pinnedIn order gone = none ↔
    ∀ referrer n, (referrer, n) ∈ order → referrer ∉ gone →
      ∀ target ∈ n.targets, target ∉ gone := by
  simp only [pinnedIn, List.findSome?_eq_none_iff, List.mem_filter, Prod.forall,
    Option.map_eq_none_iff, List.find?_eq_none, decide_eq_true_eq, and_imp]

variable (hgone : ∀ k, k ∈ gone ↔ m.nodes.Under root k) (horder : order.Perm m.nodes.toList)

include horder

/-- The order in which the nodes are scanned holds each of them once. -/
theorem mem_order {n : Node} : (referrer, n) ∈ order ↔ m.nodes[referrer]? = some n := by
  rw [horder.mem_iff, Std.ExtTreeMap.mem_toList_iff_getElem?_eq_some]

include hgone

/-- What the scan finds is a node that stays and refers to one that goes. -/
theorem pins_of_pinnedIn (h : pinnedIn order gone = some (target, referrer)) :
    m.nodes.Pins root target referrer := by
  obtain ⟨n, hn, hout, htarget, hin⟩ := of_pinnedIn h
  exact ⟨NodeTable.refers_iff.2 ⟨n, (mem_order horder).1 hn, htarget⟩, (hgone target).1 hin,
    mt (hgone referrer).2 hout⟩

/-- If the scan finds nothing, nobody that stays refers to anything that goes. -/
theorem not_pins_of_pinnedIn (h : pinnedIn order gone = none) :
    ¬∃ target referrer, m.nodes.Pins root target referrer := by
  rintro ⟨target, referrer, hrefers, hin, hout⟩
  obtain ⟨n, hn, htarget⟩ := NodeTable.refers_iff.1 hrefers
  exact pinnedIn_eq_none.1 h referrer n ((mem_order horder).2 hn) (mt (hgone referrer).1 hout)
    target htarget ((hgone target).2 hin)

end Scan

/-- Whatever the order is, the answer is exact. -/
theorem releases_leavingIn (ht : m.nodes.Treelike) (hroot : root ∈ m.nodes)
    (horder : order.Perm m.nodes.toList) :
    m.nodes.Releases root change (change <$> m.leavingIn order root) := by
  obtain ⟨tree, hcollect⟩ := ht.exists_collect hroot
  have hinside (k : NodeId) : k ∈ tree.nodes.map Node.id ↔ m.nodes.Under root k := by
    rw [NodeTable.ids_collect ht.keyed hcollect, NodeTable.mem_depthFirst]
  have hleaving : m.leavingIn order root =
      match pinnedIn order (tree.nodes.map Node.id) with
      | some (target, referrer) => .error (.stillReferenced target referrer)
      | none => .ok tree := by
    rw [leavingIn, hcollect, ok_bind]
    rfl
  -- The scan decides: no pin found, no pin there is.
  cases hscan : pinnedIn order (tree.nodes.map Node.id) with
  | none =>
    have hfree := not_pins_of_pinnedIn hinside horder hscan
    rw [hleaving, hscan]
    refine ⟨⟨nofun, fun h => absurd h hfree⟩, nofun, fun _ => ⟨tree, hcollect, hinside, rfl⟩⟩
  | some pin =>
    obtain ⟨target, referrer⟩ := pin
    have hpins := pins_of_pinnedIn hinside horder hscan
    rw [hleaving, hscan]
    refine ⟨⟨fun _ => ⟨target, referrer, hpins⟩, fun _ => ⟨target, referrer, rfl⟩⟩, ?_,
      fun hfree => absurd ⟨target, referrer, hpins⟩ hfree⟩
    rintro target' referrer' ⟨⟩
    exact hpins

end Model

/-- In whatever comes about an edit that takes something away, and is refused for nothing else, is
    refused exactly if a node outside refers to one inside, in whatever order that is looked for. -/
theorem Site.Reachable.releases {types : TypeRegistry} {site : Site} {past : List Checkpoint}
    {made : List Change} (h : Site.Reachable types site past made) {e : Edit} {root : NodeId}
    {change : Subtree → Change} (he : site.forest.model.removing? e = some (root, .ok change)) :
    site.forest.nodes.Releases root change (site.forest.model.plan e) ∧
      ∀ order, order.Perm site.forest.nodes.toList →
        site.forest.nodes.Releases root change (site.forest.model.planIn order e) := by
  have ht : site.forest.model.nodes.Treelike := h.sound.wellFormed.treelike
  have hreleases (order : List (NodeId × Node)) (horder : order.Perm site.forest.nodes.toList) :
      site.forest.nodes.Releases root change (site.forest.model.planIn order e) := by
    rw [Model.planIn_of_removing? he]
    exact Model.releases_leavingIn ht (Model.mem_of_removing? ht he) horder
  refine ⟨?_, hreleases⟩
  have hplan := hreleases site.forest.nodes.toList (List.Perm.refl _)
  rwa [show site.forest.nodes.toList = site.forest.model.nodes.toList from rfl,
    Model.planIn_toList] at hplan

/-! ## A library with two books -/

namespace Examples

/-- The first book cannot leave alone, as the second one refers to it; with the library both of
    them leave. -/
theorem releases_paired : Site.Reachable libraryTypes paired [] [opening, shelving, accompanying] ∧
    paired.forest.nodes.Refers ⟨"companion"⟩ ⟨"novel"⟩ ∧
    paired.forest.nodes.Releases ⟨"novel"⟩ (.childDeleted ⟨⟨"city"⟩, ⟨2⟩, 0⟩)
      (paired.forest.model.plan (.deleteChild ⟨⟨"city"⟩, ⟨2⟩, 0⟩ ⟨"novel"⟩)) ∧
    paired.forest.nodes.Releases ⟨"city"⟩ .partitionDeleted
      (paired.forest.model.plan (.deletePartition ⟨"city"⟩)) := by
  have hchild : paired.forest.model.childAt ⟨⟨"city"⟩, ⟨2⟩, 0⟩ ⟨"novel"⟩ = .ok () := by
    decide +kernel
  have htargets : paired.forest.nodes[(⟨"companion"⟩ : NodeId)]?.map Node.targets =
      some [⟨"novel"⟩] := by decide +kernel
  have hparent : paired.forest.nodes[(⟨"city"⟩ : NodeId)]?.map Node.parent = some none := by
    decide +kernel
  obtain ⟨n, hn, hnovel⟩ := Option.map_eq_some_iff.1 htargets
  obtain ⟨root, hcity, htop⟩ := Option.map_eq_some_iff.1 hparent
  refine ⟨reachable_paired, NodeTable.refers_iff.2 ⟨n, hn, ?_⟩, ?_, ?_⟩
  · rw [hnovel]
    exact List.mem_cons_self
  · refine (Site.Reachable.releases reachable_paired ?_).1
    rw [Model.removing?, hchild]
    rfl
  · refine (Site.Reachable.releases reachable_paired ?_).1
    rw [Model.removing?, Model.node_eq_ok.2 hcity, ok_bind, htop]
    rfl

end Examples

end DeltaForest
