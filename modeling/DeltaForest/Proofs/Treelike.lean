import DeltaForest.Proofs.Owned
import DeltaForest.Proofs.Walk
import Mathlib.Data.List.Nodup

/-!
# Tables that are trees

What a node owns is told by its lists, and who is above it by its link. In a table that is made of
trees the two say the same: `Coherent` puts this as "a node is held once by the node that it is
linked to and by no other", with links that come to an end. All that an edit of a forest has to
keep is contained in it, so edits are described by what they make of links and holdings
(`Coherent.cut`, `Coherent.graft`, `Coherent.redirect`) and not by what they do to nodes.

A table is `Treelike` if its links and holdings are coherent and every node stands under its own
id. Walking downwards from a node one then meets just those nodes that it is above of
(`Treelike.mem_depthFirst`).
-/

namespace DeltaForest

/-! ## Links and holdings -/

/-- Links and holdings that say the same, with links that come to an end. -/
structure Coherent (up : NodeId → Option NodeId) (hold : NodeId → NodeId → Nat) : Prop where
  linked : ∀ p k, hold p k = if up k = some p then 1 else 0
  grounded : ∀ k, Grounded up k

namespace Coherent

variable {up up' up₂ : NodeId → Option NodeId} {hold hold' hold₂ : NodeId → NodeId → Nat}
variable {root : NodeId}

/-- A node may be taken out with everything below it. -/
theorem cut (h : Coherent up hold) (root : NodeId) (gone : List NodeId)
    (hgone : ∀ k, k ∈ gone ↔ Above up root k)
    (hup : ∀ k, up' k = if k ∈ gone then none else up k)
    (hhold : ∀ p k, hold' p k = if p ∈ gone ∨ k = root then 0 else hold p k) :
    Coherent up' hold' where
  linked p k := by
    rw [hhold, hup, h.linked]
    by_cases hk : up k = some p
    · -- Who is below the root is the root or has a parent below it.
      have hiff : k ∈ gone ↔ p ∈ gone ∨ k = root := by
        rw [hgone, hgone, above_iff]
        simp [hk, or_comm]
      simp only [hk, if_true, hiff]
      split <;> simp
    · simp only [hk, if_false]
      split <;> split <;> simp_all
  grounded k := (h.grounded k).mono fun k p hp => by
    rw [hup] at hp
    split at hp
    · simp at hp
    · exact hp

/-- Trees may be put side by side with others, and their root below one of these. The nodes of the
    first are the ones `here`. -/
theorem graft (h : Coherent up hold) (here : NodeId → Prop) (parent : Option NodeId)
    (h₂ : Coherent up₂ hold₂) (hroot : up₂ root = none)
    (hhere : ∀ k p, up k = some p → here k ∧ here p)
    (hthere : ∀ k p, up₂ k = some p → ¬here k ∧ ¬here p) (hnew : ¬here root)
    (hparent : ∀ p, parent = some p → here p)
    (hup : ∀ k, up' k = if k = root then parent else (up k).or (up₂ k))
    (hhold : ∀ p k, hold' p k =
      hold p k + hold₂ p k + if k = root ∧ parent = some p then 1 else 0) :
    Coherent up' hold' := by
  have hfirst : ∀ k, ¬here k → up k = none := fun k hk =>
    Option.eq_none_iff_forall_ne_some.2 fun p hp => hk (hhere k p hp).1
  have hsecond : ∀ k, here k → up₂ k = none := fun k hk =>
    Option.eq_none_iff_forall_ne_some.2 fun p hp => (hthere k p hp).1 hk
  have hjoin : ∀ k, Grounded (fun k => (up k).or (up₂ k)) k :=
    Grounded.join h.grounded h₂.grounded (fun k p hp => hfirst p (hthere k p hp).2) fun _ => rfl
  refine ⟨fun p k => ?_, ?_⟩
  · rw [hhold, hup, h.linked, h₂.linked]
    by_cases hk : k = root
    · simp [hk, hfirst root hnew, hroot]
    · cases hu : up k with
      | none => simp [hk]
      | some q => simp [hk, hsecond k (hhere k q hu).1]
  · cases parent with
    | none =>
      refine fun k => (hjoin k).mono fun k p hp => ?_
      rw [hup] at hp
      split at hp
      · simp at hp
      · exact hp
    | some q =>
      -- Climbing from a node of the first trees one stays among them.
      have hclimb {k : NodeId} (ha : Above (fun k => (up k).or (up₂ k)) root k) : ¬here k := by
        induction ha with
        | self => exact hnew
        | @step k p hp _ ih =>
          intro hk
          rw [hsecond k hk, Option.or_none] at hp
          exact ih (hhere k p hp).2
      exact Grounded.redirect hjoin (fun ha => hclimb ha (hparent q rfl)) hup

/-- A node may be put below another one that is not below it. -/
theorem redirect (h : Coherent up hold) (m target : NodeId) (hm : ¬Above up m target)
    (hup : ∀ k, up' k = if k = m then some target else up k)
    (hhold : ∀ p k, hold' p k = if k = m then (if p = target then 1 else 0) else hold p k) :
    Coherent up' hold' where
  linked p k := by
    rw [hhold, hup, h.linked]
    by_cases hk : k = m
    · simp [hk, eq_comm]
    · simp [hk]
  grounded := Grounded.redirect h.grounded hm hup

end Coherent

/-! ## Tables -/

namespace NodeTable

/-- How often a node owns another one. -/
def holdings (t : NodeTable) (p k : NodeId) : Nat :=
  (t[p]?.map fun n => n.owned.count k).getD 0

/-- The targets of a registered node. -/
def targets? (t : NodeTable) (k : NodeId) : Option (List NodeId) := t[k]?.map Node.targets

/-- Every node stands under its own id. -/
def Keyed (t : NodeTable) : Prop := ∀ (k : NodeId) (n : Node), t[k]? = some n → n.id = k

/-- A table that is made of trees. -/
structure Treelike (t : NodeTable) : Prop extends Coherent t.above? t.holdings where
  keyed : t.Keyed

variable {t t' : NodeTable} {a k p root : NodeId} {n : Node}

theorem holdings_eq (h : t[p]? = some n) : t.holdings p k = n.owned.count k := by
  simp [holdings, h]

theorem above?_eq (h : t[k]? = some n) : t.above? k = n.parent := by
  simp [above?, h]

theorem exists_of_above? (h : t.above? k = some p) : ∃ n, t[k]? = some n ∧ n.parent = some p := by
  rw [above?, Option.bind_eq_some_iff] at h
  exact h

theorem isSome_targets? : (t.targets? k).isSome = t[k]?.isSome := by
  simp [targets?]

namespace Treelike

variable (h : t.Treelike)

include h

/-- An owned node has a link to its owner. -/
theorem above?_of_owned (hn : t[p]? = some n) (hk : k ∈ n.owned) : t.above? k = some p := by
  have hlinked := h.linked p k
  rw [holdings_eq hn] at hlinked
  have := List.count_pos_iff.2 hk
  split at hlinked
  · assumption
  · omega

/-- A node with a link is owned once by the node above. -/
theorem count_owned_of_above? (hp : t.above? k = some p) :
    ∃ n, t[p]? = some n ∧ n.owned.count k = 1 := by
  have hlinked := h.linked p k
  rw [if_pos hp, holdings] at hlinked
  cases hn : t[p]? with
  | none => simp [hn] at hlinked
  | some n => exact ⟨n, rfl, by simpa [hn] using hlinked⟩

/-- Downwards one comes to the nodes from which one comes back upwards. -/
theorem under_iff : Under t a k ↔ Above t.above? a k := by
  constructor
  · intro hu
    induction hu with
    | self => exact .self
    | step _ hn hk ih => exact .step (h.above?_of_owned hn hk) ih
  · intro ha
    induction ha with
    | self => exact .self
    | step hp _ ih =>
      obtain ⟨n, hn, hcount⟩ := h.count_owned_of_above? hp
      exact .step ih hn (List.count_pos_iff.1 (by omega))

/-- Walking downwards meets those nodes that the root is above of. -/
theorem mem_depthFirst : k ∈ t.depthFirst root ↔ Above t.above? root k :=
  NodeTable.mem_depthFirst.trans h.under_iff

/-- The node above is not below. -/
theorem above_notMem_depthFirst (hp : t.above? k = some p) : p ∉ t.depthFirst k := by
  rw [h.mem_depthFirst]
  exact (h.grounded k).not_above_up hp

/-- Climbing finds those nodes that are above. -/
theorem isAncestorOrSelf_iff : t.isAncestorOrSelf a k = true ↔ Above t.above? a k :=
  NodeTable.isAncestorOrSelf_iff (h.grounded k)

end Treelike

/-! ## Many nodes at once -/

/-- Erasing some ids one by one takes them out and leaves the others. -/
theorem lookup_eraseAll (ids : List NodeId) (t : NodeTable) (k : NodeId) :
    (ids.foldl (fun (t : NodeTable) id => t.erase id) t)[k]? =
      if k ∈ ids then none else t[k]? := by
  induction ids generalizing t with
  | nil => simp
  | cons id ids ih =>
    rw [List.foldl_cons, ih, lookup_erase]
    by_cases hk : k ∈ ids
    · simp [hk]
    · simp [hk, eq_comm]

/-- Of nodes that are put into a table, the last one with an id is found. -/
theorem lookup_insertAll (nodes : List Node) (t : NodeTable) (k : NodeId) :
    (nodes.foldl (fun (t : NodeTable) n => t.insert n.id n) t)[k]? =
      (nodes.reverse.find? (·.id = k)).or t[k]? := by
  induction nodes generalizing t with
  | nil => simp
  | cons n nodes ih =>
    rw [List.foldl_cons, ih, lookup_insert, List.reverse_cons, List.find?_append, Option.or_assoc]
    by_cases hk : n.id = k
    · simp [hk]
    · simp [hk]

/-- Of nodes that are inserted one by one each is found, and the others behind them. -/
theorem lookup_insertAll_eq_or (nodes : List Node) (t : NodeTable) (k : NodeId) :
    (nodes.foldl (fun (t : NodeTable) n => t.insert n.id n) t)[k]? =
      (ofList nodes)[k]?.or t[k]? := by
  rw [ofList, lookup_insertAll, lookup_insertAll]
  simp

/-- The table of nodes with different ids. -/
theorem lookup_ofList {nodes : List Node} (hd : (nodes.map Node.id).Nodup) :
    (ofList nodes)[k]? = nodes.find? (·.id = k) := by
  rw [ofList, lookup_insertAll, Std.ExtTreeMap.getElem?_empty, Option.or_none]
  induction nodes with
  | nil => rfl
  | cons n nodes ih =>
    rw [List.map_cons, List.nodup_cons] at hd
    rw [List.reverse_cons, List.find?_append, ih hd.2, List.find?_cons]
    by_cases hk : n.id = k
    · have hnone : nodes.find? (·.id = k) = none := find?_eq_none_of_notMem (hk ▸ hd.1)
      simp [hnone, hk]
    · simp [hk]

/-- In the table of some nodes each is found by its id, if no two have the same. -/
theorem lookup_ofList_eq_some {nodes : List Node} (hd : (nodes.map Node.id).Nodup) :
    (ofList nodes)[k]? = some n ↔ n ∈ nodes ∧ n.id = k := by
  rw [lookup_ofList hd]
  constructor
  · intro h
    exact ⟨List.mem_of_find?_eq_some h, by simpa using List.find?_some h⟩
  · rintro ⟨hn, rfl⟩
    obtain ⟨m, hm⟩ : ∃ m, nodes.find? (·.id = n.id) = some m :=
      Option.isSome_iff_exists.1 (List.find?_isSome.2 ⟨n, hn, by simp⟩)
    rw [hm, List.inj_on_of_nodup_map hd (List.mem_of_find?_eq_some hm) hn
      (by simpa using List.find?_some hm)]

/-- Of nodes with different ids the one with an id is found. -/
theorem find?_eq_some {nodes : List Node} (hd : (nodes.map Node.id).Nodup) :
    nodes.find? (·.id = k) = some n ↔ n ∈ nodes ∧ n.id = k := by
  rw [← lookup_ofList hd, lookup_ofList_eq_some hd]

end NodeTable

end DeltaForest
