import DeltaForest.Proofs.Exported

/-!
# Upwards and downwards

Whether a node is below another one can be found out in two ways. Upwards one follows the link of
the node, and then that of the node above, and so on (`ascend`); nothing is remembered, so that on
links in a circle there would be no end. Downwards one takes out all that the other node owns. In
whatever comes about both ways come to an end and to the same answer, the one upwards within as many
steps as there are nodes (`Site.Reachable.ancestral`): all nodes that are met are there, and none is
met twice. So a move is refused as one below itself exactly if the new owner is among the nodes that
are moved.
-/

namespace DeltaForest

/-! ## The way upwards -/

/-- The answer to whether `a` is met on the way upwards, if it is found within some steps. -/
def ascend (up : NodeId → Option NodeId) (a : NodeId) : Nat → Option NodeId → Option Bool
  | _, none => some false
  | 0, some _ => none
  | steps + 1, some k => if k = a then some true else ascend up a steps (up k)

section Ascend

variable {up : NodeId → Option NodeId} {a k : NodeId}

@[simp] theorem ascend_none (steps : Nat) : ascend up a steps none = some false := by
  cases steps <;> rfl

/-- On the way upwards no node is met twice, and so it ends before there are no more nodes. -/
theorem ascend_of_grounded (h : Grounded up k) {ids : List NodeId}
    (hids : ∀ y, Above up y k → y ∈ ids) :
    ∃ b, ascend up a ids.length (some k) = some b ∧ (b = true ↔ Above up a k) := by
  -- The list holds the nodes that are still to come: each step takes one from it.
  induction h generalizing ids with
  | @top k hk =>
    obtain ⟨steps, hsteps⟩ : ∃ steps, ids.length = steps + 1 :=
      Nat.exists_eq_add_one.2 (List.length_pos_of_mem (hids k .self))
    rw [hsteps, ascend, hk, ascend_none, above_iff_of_top hk]
    exact ⟨decide (k = a), by split <;> simp_all, decide_eq_true_iff⟩
  | @step k p hp hg ih =>
    have hk := hids k .self
    have hsteps : ids.length = (ids.erase k).length + 1 := by
      rw [List.length_erase_of_mem hk, Nat.sub_add_cancel (List.length_pos_of_mem hk)]
    have hrest (y : NodeId) (hy : Above up y p) : y ∈ ids.erase k := by
      refine (List.mem_erase_of_ne ?_).2 (hids y (.step hp hy))
      rintro rfl
      exact (Grounded.step hp hg).not_above_up hp hy
    obtain ⟨b, hb, habove⟩ := ih hrest
    rw [hsteps, ascend, hp]
    split
    · next heq => exact ⟨true, rfl, iff_of_true rfl (heq ▸ .self)⟩
    · next hne =>
      refine ⟨b, hb, habove.trans ⟨.step hp, fun h => ?_⟩⟩
      rcases above_iff.1 h with heq | ⟨q, hq, hq'⟩
      · exact absurd heq hne
      · obtain rfl := Option.some.inj (hp.symm.trans hq)
        exact hq'

end Ascend

/-! ## Nodes of a forest -/

namespace NodeTable

variable {t : NodeTable} {a n : NodeId}

/-- From a node upwards and from another one downwards the same is found. -/
structure Agrees (t : NodeTable) (a n : NodeId) : Prop where
  /-- The way upwards takes no more steps than there are nodes. -/
  ends : ascend t.above? a t.size (some n) = some (t.isAncestorOrSelf a n)
  /-- What is owned can be taken out, and the other node is in it or not. -/
  meets : ∃ tree, t.collect a = .ok tree ∧
    (t.isAncestorOrSelf a n = true ↔ n ∈ tree.nodes.map Node.id)

namespace Treelike

variable (ht : t.Treelike)

include ht

/-- Nodes above one that is there are there. -/
theorem mem_of_above (hn : n ∈ t) (h : Above t.above? a n) : a ∈ t := by
  induction h with
  | self => exact hn
  | step hp _ ih => exact ih (ht.mem_of_above? hp).2

/-- What is taken out with a node are the nodes that it is above. -/
theorem exists_tree (ha : a ∈ t) : ∃ tree, t.collect a = .ok tree ∧
    ∀ n, t.isAncestorOrSelf a n = true ↔ n ∈ tree.nodes.map Node.id := by
  obtain ⟨tree, hcollect⟩ := ht.exists_collect ha
  refine ⟨tree, hcollect, fun n => ?_⟩
  rw [ht.isAncestorOrSelf_iff, ids_collect ht.keyed hcollect, ht.mem_depthFirst]

theorem agrees (ha : a ∈ t) (hn : n ∈ t) : t.Agrees a n := by
  obtain ⟨tree, hcollect, hmem⟩ := ht.exists_tree ha
  have hids (y : NodeId) (hy : Above t.above? y n) : y ∈ t.keys :=
    Std.ExtTreeMap.mem_keys.2 (ht.mem_of_above hn hy)
  obtain ⟨b, hb, habove⟩ := ascend_of_grounded (a := a) (ht.grounded n) hids
  have hanswer : b = t.isAncestorOrSelf a n :=
    Bool.eq_iff_iff.2 (habove.trans ht.isAncestorOrSelf_iff.symm)
  refine ⟨?_, tree, hcollect, hmem n⟩
  rw [← Std.ExtTreeMap.length_keys, hb, hanswer]

end Treelike

end NodeTable

/-! ## Moves -/

namespace Model

variable {m : Model} {n : Node} {info : FeatureInfo} {moved x y : NodeId}

section Checks

variable {α : Type} {xs : List α} {id owner : NodeId} {list : NodeList} {i count : Nat}

@[simp] theorem elementAt_ne_cycle : elementAt xs id list i ≠ .error (.containmentCycle x y) := by
  rw [elementAt]
  split <;> simp

@[simp] theorem checkInsert_ne_cycle :
    checkInsert xs id list i ≠ .error (.containmentCycle x y) := by
  rw [checkInsert]
  split <;> simp

@[simp] theorem checkRoom_ne_cycle : checkRoom n info count ≠ .error (.containmentCycle x y) := by
  rw [checkRoom]
  split <;> simp

/-- A move is refused as one below itself by one check only, whatever else is checked behind. -/
theorem checkNotBelow_bind_eq_cycle {rest : Except Fault α}
    (hrest : rest ≠ .error (.containmentCycle x y)) :
    (m.checkNotBelow moved owner >>= fun _ => rest) = .error (.containmentCycle x y) ↔
      x = moved ∧ y = owner ∧ m.nodes.isAncestorOrSelf moved owner = true := by
  rw [bind_eq_error, exists_unit, checkNotBelow]
  split
  · next h => simp [h, eq_comm]
  · next h => simp [h, hrest]

end Checks

theorem planMoveChild_eq_cycle {target source : Place Handle}
    (hslot : m.slot .containment target.owner target.feature = .ok (n, info))
    (hlocate : m.locateChild moved = .ok source) :
    m.planMoveChild target moved = .error (.containmentCycle x y) ↔
      x = moved ∧ y = target.owner ∧ m.nodes.isAncestorOrSelf moved target.owner = true := by
  rw [planMoveChild, hslot, ok_bind]
  simp only [hlocate, ok_bind]
  refine checkNotBelow_bind_eq_cycle ?_
  split <;> simp [bind_eq_error]

theorem planMoveAnnotation_eq_cycle {target source : AnnotationPlace}
    (hn : m.nodes[target.owner]? = some n) (hlocate : m.locateAnnotation moved = .ok source) :
    m.planMoveAnnotation target moved = .error (.containmentCycle x y) ↔
      x = moved ∧ y = target.owner ∧ m.nodes.isAncestorOrSelf moved target.owner = true := by
  rw [Model.planMoveAnnotation, node_eq_ok.2 hn, ok_bind, hlocate, ok_bind]
  refine checkNotBelow_bind_eq_cycle ?_
  split <;> simp [bind_eq_error]

end Model

/-- What is found upwards and downwards in a forest, and the moves that depend on it. -/
structure Forest.Ancestral (f : Forest) : Prop where
  agrees : ∀ a n, a ∈ f.nodes → n ∈ f.nodes → f.nodes.Agrees a n
  /-- A child that is there is not moved below itself, -/
  children : ∀ (target source : Place Handle) (moved : NodeId) (n : Node) (info : FeatureInfo),
    f.model.slot .containment target.owner target.feature = .ok (n, info) →
    f.model.locateChild moved = .ok source →
    ∃ tree, f.nodes.collect moved = .ok tree ∧ ∀ x y,
      f.model.planMoveChild target moved = .error (.containmentCycle x y) ↔
        x = moved ∧ y = target.owner ∧ target.owner ∈ tree.nodes.map Node.id
  /-- and neither is an annotation. -/
  annotations : ∀ (target source : AnnotationPlace) (moved : NodeId) (n : Node),
    f.nodes[target.owner]? = some n → f.model.locateAnnotation moved = .ok source →
    ∃ tree, f.nodes.collect moved = .ok tree ∧ ∀ x y,
      f.model.planMoveAnnotation target moved = .error (.containmentCycle x y) ↔
        x = moved ∧ y = target.owner ∧ target.owner ∈ tree.nodes.map Node.id

/-- In whatever comes about the ways upwards and downwards agree. -/
theorem Site.Reachable.ancestral {types : TypeRegistry} {site : Site} {past : List Checkpoint}
    {made : List Change} (h : Site.Reachable types site past made) : site.forest.Ancestral := by
  have ht : site.forest.nodes.Treelike := h.sound.wellFormed.treelike
  refine ⟨fun a n => ht.agrees, fun target source moved n info hslot hlocate => ?_,
    fun target source moved n hn hlocate => ?_⟩
  · obtain ⟨node, -, hmoved, -⟩ := Model.locateChild_iff.1 hlocate
    obtain ⟨tree, hcollect, hmem⟩ := ht.exists_tree (mem_of_lookup hmoved)
    refine ⟨tree, hcollect, fun x y => ?_⟩
    rw [Model.planMoveChild_eq_cycle hslot hlocate, ← hmem]
    rfl
  · obtain ⟨node, -, hmoved, -⟩ := Model.locateAnnotation_iff.1 hlocate
    obtain ⟨tree, hcollect, hmem⟩ := ht.exists_tree (mem_of_lookup hmoved)
    refine ⟨tree, hcollect, fun x y => ?_⟩
    rw [Model.planMoveAnnotation_eq_cycle hn hlocate, ← hmem]
    rfl

/-! ## A library with a book -/

namespace Examples

/-- From the book it is one step to the library, of which there are two nodes in all; the book
    cannot become a chapter of itself. -/
theorem ancestral_stocked : Site.Reachable libraryTypes stocked [] [opening, shelving] ∧
    ascend stocked.forest.nodes.above? ⟨"city"⟩ 2 (some ⟨"novel"⟩) = some true ∧
    stocked.forest.model.planMoveChild ⟨⟨"novel"⟩, ⟨9⟩, 0⟩ ⟨"novel"⟩ =
      .error (.containmentCycle ⟨"novel"⟩ ⟨"novel"⟩) ∧
    stocked.forest.Ancestral :=
  ⟨reachable_stocked, by decide +kernel, by decide +kernel,
    Site.Reachable.ancestral reachable_stocked⟩

end Examples

end DeltaForest
