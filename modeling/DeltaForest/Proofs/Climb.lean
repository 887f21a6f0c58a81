import DeltaForest.NodeTable
import DeltaForest.Proofs.Lookup

/-!
# Following links upwards

Every node has at most one link to a node above, so the links of a table are a function from ids
to ids, defined on some of them (`NodeTable.above?`). What is said here holds of any such function
`up`.

* `Above up a k`: from `k` one comes to `a` in some number of steps, possibly none;
* `Grounded up k`: from `k` the links come to an end.

Where all ids are grounded no link leads back (`Grounded.not_above_up`), links may be cut
(`Grounded.mono`), one may be set that does not lead back to where it starts
(`Grounded.redirect`), and the links of two separate collections may be put side by side
(`Grounded.join`). Asking a table whether a node is above another one is then answered by `Above`
(`NodeTable.isAncestorOrSelf_iff`), although the walk takes every node out of the table.
-/

namespace DeltaForest

/-- Following links from `k` one comes to `a`. -/
inductive Above (up : NodeId → Option NodeId) (a : NodeId) : NodeId → Prop
  | self : Above up a a
  | step {k p : NodeId} : up k = some p → Above up a p → Above up a k

/-- Following links from `k` comes to an end. -/
inductive Grounded (up : NodeId → Option NodeId) : NodeId → Prop
  | top {k : NodeId} : up k = none → Grounded up k
  | step {k p : NodeId} : up k = some p → Grounded up p → Grounded up k

variable {up up' : NodeId → Option NodeId} {a b k p : NodeId}

/-! ## Above -/

theorem Above.trans (h : Above up a b) (h' : Above up b k) : Above up a k := by
  induction h' with
  | self => exact h
  | step hp _ ih => exact .step hp ih

/-- What is above some id is above all that has a link to it. -/
theorem Above.of_up (h : up a = some p) (h' : Above up a k) : Above up p k :=
  (Above.step h .self).trans h'

theorem above_iff : Above up a k ↔ k = a ∨ ∃ p, up k = some p ∧ Above up a p := by
  constructor
  · rintro (_ | ⟨hp, h⟩)
    · exact .inl rfl
    · exact .inr ⟨_, hp, h⟩
  · rintro (rfl | ⟨p, hp, h⟩)
    · exact .self
    · exact .step hp h

/-- Only the id itself is above one without a link. -/
theorem above_iff_of_top (hk : up k = none) : Above up a k ↔ k = a := by
  rw [above_iff]
  simp [hk]

theorem Above.mono (hup : ∀ k p, up k = some p → up' k = some p) (h : Above up a k) :
    Above up' a k := by
  induction h with
  | self => exact .self
  | step hp _ ih => exact .step (hup _ _ hp) ih

/-! ## Grounded -/

/-- No link leads back. -/
theorem Grounded.not_above_up (h : Grounded up k) (hp : up k = some p) : ¬Above up k p := by
  induction h generalizing p with
  | top hk => simp [hk] at hp
  | step hq _ ih =>
    obtain rfl := Option.some.inj (hq.symm.trans hp)
    intro ha
    rcases above_iff.1 ha with rfl | ⟨q, hq', ha'⟩
    · exact ih hq .self
    · exact ih hq' (ha'.of_up hp)

/-- Links may be cut. -/
theorem Grounded.mono (hup : ∀ k p, up' k = some p → up k = some p) (h : Grounded up k) :
    Grounded up' k := by
  induction h with
  | top hk =>
    refine .top (Option.eq_none_iff_forall_ne_some.2 fun p hp => ?_)
    simp [hup _ _ hp] at hk
  | @step k p hp _ ih =>
    cases h' : up' k with
    | none => exact .top h'
    | some q =>
      obtain rfl := Option.some.inj ((hup _ _ h').symm.trans hp)
      exact .step h' ih

/-- A link may be set to a place that is not below its own start. -/
theorem Grounded.redirect (h : ∀ k, Grounded up k) {m target : NodeId}
    (hm : ¬Above up m target) (hup : ∀ k, up' k = if k = m then some target else up k) :
    ∀ k, Grounded up' k := by
  -- Whoever is not below `m` climbs as before.
  have outside {k : NodeId} (hk : ¬Above up m k) : Grounded up' k := by
    have hg := h k
    induction hg with
    | @top k ht =>
      refine .top ?_
      rw [hup, if_neg (by rintro rfl; exact hk .self), ht]
    | @step k p hp _ ih =>
      refine .step (p := p) ?_ (ih fun ha => hk (.step hp ha))
      rw [hup, if_neg (by rintro rfl; exact hk .self), hp]
  intro k
  have hg := h k
  induction hg with
  | @top k ht =>
    by_cases hk : k = m
    · exact .step (p := target) (by rw [hup, if_pos hk]) (outside hm)
    · exact .top (by rw [hup, if_neg hk, ht])
  | @step k p hp _ ih =>
    by_cases hk : k = m
    · exact .step (p := target) (by rw [hup, if_pos hk]) (outside hm)
    · exact .step (p := p) (by rw [hup, if_neg hk, hp]) ih

/-- Links of separate collections may be put side by side. -/
theorem Grounded.join {up₁ up₂ : NodeId → Option NodeId} (h₁ : ∀ k, Grounded up₁ k)
    (h₂ : ∀ k, Grounded up₂ k) (hsep : ∀ k p, up₂ k = some p → up₁ p = none)
    (hup : ∀ k, up' k = (up₁ k).or (up₂ k)) : ∀ k, Grounded up' k := by
  have second {k : NodeId} (hk : up₁ k = none) : Grounded up' k := by
    have hg := h₂ k
    induction hg with
    | top ht => exact .top (by rw [hup, hk, ht]; rfl)
    | step hp _ ih => exact .step (by rw [hup, hk, hp]; rfl) (ih (hsep _ _ hp))
  intro k
  have hg := h₁ k
  induction hg with
  | top ht => exact second ht
  | step hp _ ih => exact .step (by rw [hup, hp]; rfl) ih

/-! ## The links of a table -/

namespace NodeTable

variable (t : NodeTable)

/-- The link of a node to the one above. -/
def above? (id : NodeId) : Option NodeId := t[id]?.bind Node.parent

theorem above?_erase (id : NodeId) :
    NodeTable.above? (t.erase id) k = if id = k then none else t.above? k := by
  simp only [above?, lookup_erase]
  split <;> rfl

/-- The walk upwards, one step at a time. -/
theorem isAncestorOrSelf_eq (a id : NodeId) :
    t.isAncestorOrSelf a id = (decide (id = a) || (t.above? id).any
      fun above => isAncestorOrSelf (t.erase id) a above) := by
  rw [isAncestorOrSelf]
  by_cases h : id = a
  · simp [h]
  · rw [if_neg h, decide_eq_false h, Bool.false_or, above?]
    split
    · next hn => rw [hn]; rfl
    · next n hn =>
      rw [hn, Option.bind_some]
      cases n.parent <;> rfl

variable {t}

/-- The walk upwards goes from a node to those above it. No link leads back, so the nodes that it
    takes out of the table are not missed. -/
theorem isAncestorOrSelf_iff (h : Grounded t.above? k) :
    t.isAncestorOrSelf a k = true ↔ Above t.above? a k := by
  -- The table gets smaller on the way, but keeps the links at `k` and above it.
  have key {t' : NodeTable} (ht : ∀ y, Above t.above? y k → t'.above? y = t.above? y) :
      t'.isAncestorOrSelf a k = true ↔ Above t.above? a k := by
    induction h generalizing t' with
    | top hk =>
      rw [isAncestorOrSelf_eq, ht _ .self, above_iff_of_top hk]
      simp [hk]
    | @step k p hp hg ih =>
      rw [isAncestorOrSelf_eq, ht _ .self, above_iff]
      have := @ih (t'.erase k) fun y hy => by
        rw [above?_erase, if_neg, ht _ (.step hp hy)]
        rintro rfl
        exact (Grounded.step hp hg).not_above_up hp hy
      simp [hp, this]
  exact key fun _ _ => rfl

end NodeTable

end DeltaForest
