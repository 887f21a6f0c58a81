import DeltaForest.Forest
import DeltaForest.Proofs.Lookup

/-!
# What a node owns

A node owns what is in its seats: the children in its containments and its annotations. Only how
often it owns another node matters for the shape of a forest, not where, so the edits of a seat are
described by their effect on `n.owned.count`.

* `count_owned_withSeated`: other nodes in a seat count instead of those that were there;
* `seated_prune`, `entries_prune`, `owned_prune`: pruning a node does not change how it looks.
-/

namespace DeltaForest

namespace Node

variable (n : Node)

/-! ## Seats -/

/-- Setting the children of one containment leaves the others. -/
theorem children_withChildren (c c' : Handle) (ids : List NodeId) :
    (n.withChildren c ids).children c' = if c = c' then ids else n.children c' := by
  simp only [children, withChildren, lookup_insert]
  split <;> rfl

/-- Setting the entries of one reference leaves the others. -/
theorem entries_withEntries (r r' : Handle) (es : List Entry) :
    (n.withEntries r es).entries r' = if r = r' then es else n.entries r' := by
  simp only [entries, withEntries, lookup_insert]
  split <;> rfl

/-- Seating others in one seat leaves those in the other seats. -/
theorem seated_withSeated (s s' : Seat) (ids : List NodeId) :
    (n.withSeated s ids).seated s' = if s = s' then ids else n.seated s' := by
  cases s with
  | containment c =>
    cases s' with
    | containment c' =>
      simp only [seated, withSeated, children_withChildren, Seat.containment.injEq]
    | annotations => simp [seated, withSeated, withChildren]
  | annotations =>
    cases s' with
    | containment c' => simp [seated, withSeated, children]
    | annotations => simp [seated, withSeated]

/-- What is in some seat is owned, and nothing else. -/
theorem mem_owned {k : NodeId} : k ∈ n.owned ↔ ∃ s, k ∈ n.seated s := by
  simp only [owned, List.mem_append, List.mem_flatMap, Prod.exists,
    Std.ExtTreeMap.mem_toList_iff_getElem?_eq_some]
  constructor
  · rintro (⟨c, ids, hc, hk⟩ | hk)
    · exact ⟨.containment c, by simpa [seated, children, hc] using hk⟩
    · exact ⟨.annotations, hk⟩
  · rintro ⟨c | _, hk⟩
    · cases hc : n.containments[c]? with
      | none => simp [seated, children, hc] at hk
      | some ids => exact .inl ⟨c, ids, hc, by simpa [seated, children, hc] using hk⟩
    · exact .inr hk

/-- A node is a target if some entry of some reference has it for a target. -/
theorem mem_targets {x : NodeId} : x ∈ n.targets ↔ ∃ r, ∃ e ∈ n.entries r, e.target = some x := by
  simp only [targets, List.mem_filterMap, List.mem_flatMap, Prod.exists,
    Std.ExtTreeMap.mem_toList_iff_getElem?_eq_some]
  constructor
  · rintro ⟨e, ⟨r, es, hr, he⟩, hx⟩
    exact ⟨r, e, by simpa [entries, hr] using he, hx⟩
  · rintro ⟨r, e, he, hx⟩
    cases hr : n.references[r]? with
    | none => simp [entries, hr] at he
    | some es => exact ⟨e, ⟨r, es, hr, by simpa [entries, hr] using he⟩, hx⟩

/-! ## Counting -/

/-- The lists of a map together are the one at a key and the others. -/
theorem count_flatMap_toList (m : FeatureMap (List NodeId)) (c : Handle) (k : NodeId) :
    (m.toList.flatMap (·.2)).count k =
      (m[c]?.getD []).count k + ((m.erase c).toList.flatMap (·.2)).count k := by
  cases h : m[c]? with
  | none => simp [erase_eq_self m h]
  | some ids => simp [((toList_perm_of_lookup m h).flatMap_right (·.2)).count_eq k]

/-- Other nodes in a seat are owned in place of those that were there. -/
theorem count_owned_withSeated (s : Seat) (ids : List NodeId) (k : NodeId) :
    (n.withSeated s ids).owned.count k + (n.seated s).count k =
      n.owned.count k + ids.count k := by
  cases s with
  | containment c =>
    have hm := count_flatMap_toList n.containments c k
    have hm' := count_flatMap_toList (n.containments.insert c ids) c k
    -- But for this containment nothing has changed.
    have he : (n.containments.insert c ids).erase c = n.containments.erase c := by
      ext k a
      simp only [lookup_erase, lookup_insert]
      split <;> rfl
    simp only [Std.ExtTreeMap.getElem?_insert_self, Option.getD_some, he] at hm'
    simp only [owned, seated, withSeated, withChildren, children, List.count_append, hm, hm']
    omega
  | annotations =>
    simp only [owned, seated, withSeated, List.count_append]
    omega

/-! ## Pruning -/

@[simp] theorem children_prune (c : Handle) : n.prune.children c = n.children c := by
  simp only [children, prune, Std.ExtTreeMap.getElem?_filter']
  cases n.containments[c]? with
  | none => rfl
  | some ids => cases ids <;> rfl

@[simp] theorem entries_prune (r : Handle) : n.prune.entries r = n.entries r := by
  simp only [entries, prune, Std.ExtTreeMap.getElem?_filter']
  cases n.references[r]? with
  | none => rfl
  | some es => cases es <;> rfl

@[simp] theorem seated_prune (s : Seat) : n.prune.seated s = n.seated s := by
  cases s with
  | containment c => exact n.children_prune c
  | annotations => rfl

/-- Lists that hold nothing add nothing to all lists together. -/
theorem flatMap_filter_isEmpty {α : Type} (m : FeatureMap (List α)) :
    ((m.filter fun _ l => !l.isEmpty).toList.flatMap (·.2)) = m.toList.flatMap (·.2) := by
  rw [Std.ExtTreeMap.toList_filter]
  induction m.toList with
  | nil => rfl
  | cons p rest ih =>
    obtain ⟨c, l⟩ := p
    cases l with
    | nil => simpa using ih
    | cons a l => simpa using ih

@[simp] theorem owned_prune : n.prune.owned = n.owned := by
  simp only [owned, prune, flatMap_filter_isEmpty]

@[simp] theorem targets_prune : n.prune.targets = n.targets := by
  simp only [targets, prune, flatMap_filter_isEmpty]

@[simp] theorem id_prune : n.prune.id = n.id := rfl

@[simp] theorem parent_prune : n.prune.parent = n.parent := rfl

@[simp] theorem classifier_prune : n.prune.classifier = n.classifier := rfl

@[simp] theorem property?_prune (p : Handle) : n.prune.property? p = n.property? p := rfl

@[simp] theorem annotations_prune : n.prune.annotations = n.annotations := rfl

@[simp] theorem id_withSeated (s : Seat) (ids : List NodeId) : (n.withSeated s ids).id = n.id := by
  cases s <;> rfl

@[simp] theorem parent_withSeated (s : Seat) (ids : List NodeId) :
    (n.withSeated s ids).parent = n.parent := by
  cases s <;> rfl

@[simp] theorem targets_withSeated (s : Seat) (ids : List NodeId) :
    (n.withSeated s ids).targets = n.targets := by
  cases s <;> rfl

end Node

end DeltaForest
