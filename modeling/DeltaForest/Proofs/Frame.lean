import DeltaForest.Proofs.WellFormed

/-!
# What a change leaves alone

What there is to see of a node comes in facets: its classifier, its link, each property, each seat
and the entries of each reference. A change says which facets of which nodes it edits
(`Change.edits`). All other facets of all nodes that stay look the same afterwards, and a node none
of whose facets is edited, or only its link, is the same as it was stored (`Change.keeps_outcome`).

A step of a change edits one facet of one node at most, and one step after the other edits what
either of them edits (`NodeTable.Keeps.trans`).
-/

namespace DeltaForest

/-- A part of what there is to see of a node. -/
inductive Facet
  | classifier
  /-- The link to the node above. -/
  | parent
  | property (p : Handle)
  | seat (s : Seat)
  | entries (r : Handle)
  deriving DecidableEq

/-- Two nodes look the same in a facet. A list that is empty looks like one that is not there. -/
def Facet.Same (n n' : Node) : Facet → Prop
  | classifier => n'.classifier = n.classifier
  | parent => n'.parent = n.parent
  | property p => n'.property? p = n.property? p
  | seat s => n'.seated s = n.seated s
  | entries r => n'.entries r = n.entries r

theorem Facet.same_refl (n : Node) (facet : Facet) : facet.Same n n := by
  cases facet <;> rfl

/-- Of a node only some facets have been edited. -/
structure Node.Keeps (edited : Facet → Prop) (n n' : Node) : Prop where
  id : n'.id = n.id
  facets : ∀ facet, ¬edited facet → facet.Same n n'
  /-- A node of which nothing but the link has been edited is stored as it was. -/
  rest : (∀ facet, edited facet → facet = .parent) → n' = { n with parent := n'.parent }

/-- Of all nodes that are there before and after, only some facets of some have been edited. -/
def NodeTable.Keeps (t t' : NodeTable) (edits : List (NodeId × Facet)) : Prop :=
  ∀ (k : NodeId) (n n' : Node), t[k]? = some n → t'[k]? = some n' →
    n.Keeps (fun facet => (k, facet) ∈ edits) n'

/-! ## Nodes -/

namespace Node

variable {edited edited' : Facet → Prop} {n n' n'' : Node}

theorem Keeps.refl (edited : Facet → Prop) (n : Node) : n.Keeps edited n where
  id := rfl
  facets facet _ := facet.same_refl n
  rest _ := rfl

/-- More may be edited than is. -/
theorem Keeps.mono (h : n.Keeps edited n') (hsub : ∀ facet, edited facet → edited' facet) :
    n.Keeps edited' n' where
  id := h.id
  facets facet hfacet := h.facets facet (mt (hsub facet) hfacet)
  rest hrest := h.rest fun facet hfacet => hrest facet (hsub facet hfacet)

/-- What is edited by two steps is edited by one or the other. -/
theorem Keeps.trans (h : n.Keeps edited n') (h' : n'.Keeps edited' n'') :
    n.Keeps (fun facet => edited facet ∨ edited' facet) n'' where
  id := h'.id.trans h.id
  facets facet hfacet := by
    have hsame := h.facets facet (mt .inl hfacet)
    have hsame' := h'.facets facet (mt .inr hfacet)
    cases facet <;> exact hsame'.trans hsame
  rest hrest := by
    rw [h'.rest fun facet hfacet => hrest facet (.inr hfacet),
      h.rest fun facet hfacet => hrest facet (.inl hfacet)]

/-- A node that is edited in one facet, other than its link, and pruned. -/
theorem keeps_prune {facet : Facet} (hid : n'.id = n.id)
    (hfacets : ∀ other, other ≠ facet → other.Same n n') (hfacet : facet ≠ .parent) :
    n.Keeps (· = facet) n'.prune where
  id := hid
  facets other hother := by
    have hsame := hfacets other hother
    cases other with
    | classifier | parent | property => exact hsame
    | seat s => exact (n'.seated_prune s).trans hsame
    | entries r => exact (n'.entries_prune r).trans hsame
  rest hrest := absurd (hrest facet rfl) hfacet

end Node

/-! ## Tables -/

namespace NodeTable

variable {t t' t'' : NodeTable} {edits edits' : List (NodeId × Facet)} {id : NodeId}

namespace Keeps

theorem refl (t : NodeTable) (edits : List (NodeId × Facet)) : t.Keeps t edits := by
  intro k n n' hn hn'
  obtain rfl := Option.some.inj (hn.symm.trans hn')
  exact .refl _ _

/-- One step after the other edits what either of them edits. What is there before and after is to
    be there in between. -/
theorem trans (h : t.Keeps t' edits) (h' : t'.Keeps t'' edits')
    (hmem : ∀ k, k ∈ t → k ∈ t'' → k ∈ t') : t.Keeps t'' (edits ++ edits') := by
  intro k n n'' hn hn''
  obtain ⟨n', hn'⟩ := mem_iff_exists.1 (hmem k (mem_of_lookup hn) (mem_of_lookup hn''))
  exact ((h k n n' hn hn').trans (h' k n' n'' hn' hn'')).mono fun _ => List.mem_append.2

/-- A table keeps what it keeps if more may be edited. -/
theorem mono (h : t.Keeps t' edits) (hsub : edits ⊆ edits') : t.Keeps t' edits' :=
  fun k n n' hn hn' => (h k n n' hn hn').mono fun _ hfacet => hsub hfacet

/-- A node that is not among those that are edited is stored as it was. -/
theorem eq_of_notMem (h : t.Keeps t' edits) {n n' : Node} (hn : t[id]? = some n)
    (hn' : t'[id]? = some n') (hid : id ∉ edits.map (·.1)) : n' = n := by
  have hnone (facet : Facet) : (id, facet) ∉ edits := fun hmem => hid (List.mem_map_of_mem hmem)
  have hkeeps := h id n n' hn hn'
  have hparent : n'.parent = n.parent := hkeeps.facets .parent (hnone _)
  rw [hkeeps.rest fun facet hfacet => absurd hfacet (hnone facet), hparent]

end Keeps

/-! ## Steps -/

/-- Editing a node in one facet keeps the others. -/
theorem keeps_edited {step : Node → Node} {facet : Facet} (hid : ∀ n, (step n).id = n.id)
    (hfacets : ∀ n, ∀ other, other ≠ facet → other.Same n (step n)) (hfacet : facet ≠ .parent) :
    t.Keeps (t.edited id step) [(id, facet)] := by
  intro k n n' hn hn'
  rw [lookup_edited, hn, Option.map_some, Option.some.injEq] at hn'
  subst hn'
  split
  · next hk =>
    refine (Node.keeps_prune (hid n) (hfacets n) hfacet).mono fun other hother => ?_
    rw [hk, hother]
    exact List.mem_cons_self
  · exact .refl _ _

/-- Seating others edits one seat of the owner. -/
theorem keeps_withSeated {s : Seat} {ids : List NodeId} :
    t.Keeps (t.withSeated id s ids) [(id, .seat s)] := by
  refine keeps_edited (fun n => n.id_withSeated s ids) (fun n other hother => ?_) nofun
  cases other with
  | seat s' =>
    have hne : s ≠ s' := fun heq => hother (congrArg Facet.seat heq.symm)
    rw [Facet.Same, Node.seated_withSeated, if_neg hne]
  | _ => cases s <;> rfl

/-- Setting entries edits one reference of the owner. -/
theorem keeps_withEntries {p : Place Handle} {es : List Entry} :
    t.Keeps (t.withEntries p es) [(p.owner, .entries p.feature)] := by
  refine keeps_edited (fun _ => rfl) (fun n other hother => ?_) nofun
  cases other with
  | entries r =>
    have hne : p.feature ≠ r := fun heq => hother (congrArg Facet.entries heq.symm)
    rw [Facet.Same, Node.entries_withEntries, if_neg hne]
  | seat s => cases s <;> rfl
  | _ => rfl

/-- A step that changes one property edits only that. -/
theorem keeps_withProperty {property : Handle} (step : FeatureMap Value → FeatureMap Value)
    (hstep : ∀ properties other, other ≠ property →
      (step properties)[other]? = properties[other]?) :
    t.Keeps (t.edited id fun n => { n with properties := step n.properties })
      [(id, .property property)] := by
  refine keeps_edited (fun _ => rfl) (fun n other hother => ?_) nofun
  cases other with
  | property p => exact hstep n.properties p fun heq => hother (congrArg Facet.property heq)
  | seat s => cases s <;> rfl
  | _ => rfl

/-- A new parent edits the link of the node. -/
theorem keeps_adopted {above : NodeId} : t.Keeps (t.adopted id above) [(id, .parent)] := by
  intro k n n' hn hn'
  rw [lookup_adopted, hn, Option.map_some, Option.some.injEq] at hn'
  subst hn'
  split
  · next hk =>
    refine ⟨rfl, fun facet hfacet => ?_, fun _ => rfl⟩
    cases facet with
    | parent => exact absurd (hk ▸ List.mem_cons_self) hfacet
    | seat s => cases s <;> rfl
    | _ => rfl
  · exact .refl _ _

/-- Whoever stays is as before when others go. -/
theorem keeps_felled {root : NodeId} : t.Keeps (t.felled root) [] := by
  intro k n n' hn hn'
  rw [lookup_felled] at hn'
  split at hn'
  · cases hn'
  · obtain rfl := Option.some.inj (hn.symm.trans hn')
    exact .refl _ _

/-- Whoever is there is as before when others come. -/
theorem keeps_planted {tree : Subtree} {above : Option NodeId} (hv : t.Vacant tree)
    (hd : (tree.nodes.map Node.id).Nodup) : t.Keeps (t.planted tree above) [] := by
  intro k n n' hn hn'
  rw [lookup_planted, Option.or_eq_some_iff] at hn'
  rcases hn' with hn' | ⟨-, hn'⟩
  · -- What comes has not been there before.
    exact absurd (mem_of_lookup hn) (hv.notMem ((mem_table hd).1 (mem_of_lookup hn')))
  · obtain rfl := Option.some.inj (hn.symm.trans hn')
    exact .refl _ _

end NodeTable

/-! ## Changes -/

/-- The list that a place is in. -/
def Place.seatFacet (p : Place Seat) : NodeId × Facet := (p.owner, .seat p.feature)

/-- The entries that a place is among. -/
def Place.entriesFacet (p : Place Handle) : NodeId × Facet := (p.owner, .entries p.feature)

/-- The facets of nodes that a reshaping edits. -/
def Reshaping.edits : Reshaping → List (NodeId × Facet)
  | plant _ | fell _ => []
  | attach p _ | detach p _ | exchange p _ _ => [p.seatFacet]
  | move target source id | moveAndReplace target source id _ =>
    [target.seatFacet, source.seatFacet, (id, .parent)]

/-- A reshaping edits only what it says. -/
theorem Reshaping.keeps_outcome {t : NodeTable} {r : Reshaping} (hr : r.Fits t)
    (htree : ∀ tree ∈ r.incoming, tree.IsTree) : t.Keeps (r.outcome t) r.edits := by
  -- Seats are the only facets that a reshaping edits.
  have hseat {t : NodeTable} {p : Place Seat} {ids : List NodeId} :
      t.Keeps (t.withSeated p.owner p.feature ids) [p.seatFacet] := NodeTable.keeps_withSeated
  cases r with
  | plant tree =>
    exact NodeTable.keeps_planted hr (htree tree List.mem_cons_self).distinct
  | fell root => exact NodeTable.keeps_felled
  | attach p tree =>
    have hd := (htree tree List.mem_cons_self).distinct
    exact (NodeTable.keeps_planted hr.1 hd).trans hseat fun k _ hk => NodeTable.mem_inserted.1 hk
  | detach p old =>
    exact hseat.trans NodeTable.keeps_felled fun k hk _ => NodeTable.mem_removed.2 hk
  | exchange p tree old =>
    have hd := (htree tree List.mem_cons_self).distinct
    -- The subtree comes after the old node has gone, so there is room for it.
    have hmem : ∀ k, k ∈ (t.replaced p tree.root.id).felled old → k ∈ t := fun k hk =>
      NodeTable.mem_replaced.1 (NodeTable.mem_felled.1 hk).1
    have hfirst : t.Keeps ((t.replaced p tree.root.id).felled old) [p.seatFacet] :=
      hseat.trans NodeTable.keeps_felled fun k hk _ => NodeTable.mem_replaced.2 hk
    refine hfirst.trans (NodeTable.keeps_planted (hr.2.mono hmem) hd) fun k hk hafter => ?_
    exact ((NodeTable.mem_planted hd).1 hafter).resolve_left fun hin => hr.2.notMem hin hk
  | move target source id =>
    refine (((hseat (p := source)).trans (hseat (p := target)) fun k hk _ => ?_).trans
      NodeTable.keeps_adopted fun k hk _ => ?_).mono ?_
    · exact NodeTable.mem_removed.2 hk
    · exact NodeTable.mem_inserted.2 (NodeTable.mem_removed.2 hk)
    · simp [edits]
  | moveAndReplace target source id old =>
    have hseats : t.Keeps ((t.replaced target id).removed source)
        [target.seatFacet, source.seatFacet] :=
      hseat.trans hseat fun k hk _ => NodeTable.mem_replaced.2 hk
    have hfelled : t.Keeps (((t.replaced target id).removed source).felled old)
        [target.seatFacet, source.seatFacet] :=
      hseats.trans NodeTable.keeps_felled fun k hk _ =>
        NodeTable.mem_removed.2 (NodeTable.mem_replaced.2 hk)
    exact hfelled.trans NodeTable.keeps_adopted fun k _ hk => NodeTable.mem_adopted.1 hk

namespace Change

/-- The facets of nodes that a change edits. -/
def edits : Change → List (NodeId × Facet)
  | partitionAdded _ | partitionDeleted _ => []
  | classifierChanged id .. => [(id, .classifier)]
  | propertyAdded id property _ | propertyDeleted id property _ | propertyChanged id property .. =>
    [(id, .property property)]
  | childAdded place _ | childDeleted place _ | childReplaced place .. => [place.seat.seatFacet]
  | childMoved shift moved | childMovedAndReplaced shift moved _ =>
    [shift.target.seat.seatFacet, shift.source.seat.seatFacet, (moved, .parent)]
  | annotationAdded place _ | annotationDeleted place _ | annotationReplaced place .. =>
    [place.seat.seatFacet]
  | annotationMoved shift moved | annotationMovedAndReplaced shift moved _ =>
    [shift.target.seat.seatFacet, shift.source.seat.seatFacet, (moved, .parent)]
  | entryAdded place _ | entryDeleted place _ | entryChanged place .. => [place.entriesFacet]
  | entryMoved shift _ | entryMovedAndReplaced shift .. =>
    [shift.target.entriesFacet, shift.source.entriesFacet]
  | resolveInfoAdded place .. | resolveInfoDeleted place .. | resolveInfoChanged place .. =>
    [place.entriesFacet]
  | targetAdded place .. | targetDeleted place .. | targetChanged place .. => [place.entriesFacet]

variable {m : Model} {c : Change}

/-- A change that reshapes edits what its reshaping does. -/
theorem edits_of_reshaping {r : Reshaping} (h : c.reshaping? = some r) : c.edits = r.edits := by
  cases c <;> cases h <;> rfl

/-- A change of properties, references or a classifier leaves alone what it does not edit. -/
theorem keeps_of_content {t : NodeTable} (h : c.reshaping? = none) :
    t.Keeps (c.outcome t) c.edits := by
  have hentries {t : NodeTable} {p : Place Handle} {es : List Entry} :
      t.Keeps (t.withEntries p es) [p.entriesFacet] := NodeTable.keeps_withEntries
  have hedit {p : Place Handle} {step : Entry → Entry} :
      t.Keeps (t.entryEdited p step) [p.entriesFacet] := by
    rw [NodeTable.entryEdited]
    split
    · exact hentries
    · exact .refl _ _
  cases c <;> cases h
  case classifierChanged id new old =>
    refine NodeTable.keeps_edited (fun _ => rfl) (fun n other hother => ?_) (by simp)
    cases other with
    | classifier => exact absurd rfl hother
    | seat s => cases s <;> rfl
    | _ => rfl
  case propertyAdded | propertyChanged =>
    exact NodeTable.keeps_withProperty (·.insert _ _) fun properties other hother =>
      (lookup_insert _ _ _ _).trans (if_neg hother.symm)
  case propertyDeleted =>
    exact NodeTable.keeps_withProperty (·.erase _) fun properties other hother =>
      (lookup_erase _ _ _).trans (if_neg hother.symm)
  case entryAdded | entryDeleted | entryChanged => exact hentries
  case entryMoved shift moved =>
    refine (hentries.trans hentries fun k hk _ => NodeTable.mem_edited.2 hk).mono ?_
    simp [edits]
  case entryMovedAndReplaced shift moved old =>
    -- That the moved entry is looked at prunes its node, too.
    have hfirst : t.Keeps (t.edited shift.source.owner fun n => n) [shift.source.entriesFacet] :=
      NodeTable.keeps_edited (fun _ => rfl) (fun n other _ => other.same_refl n) (by simp)
    refine ((hfirst.trans hentries fun k hk _ => NodeTable.mem_edited.2 hk).trans hentries
      fun k hk _ => NodeTable.mem_edited.2 (NodeTable.mem_edited.2 hk)).mono ?_
    simp [edits]
  all_goals exact hedit

/-- A change leaves alone what it does not edit. -/
theorem keeps_outcome (ht : m.nodes.Treelike) (hc : c.Fits m)
    (htree : ∀ tree ∈ c.incoming, tree.IsTree) : m.nodes.Keeps (c.outcome m.nodes) c.edits := by
  cases hr : c.reshaping? with
  | none => exact keeps_of_content hr
  | some r =>
    rw [outcome_of_reshaping hr, edits_of_reshaping hr]
    exact Reshaping.keeps_outcome (fits_of_reshaping ht hc hr) (incoming_of_reshaping hr ▸ htree)

end Change

end DeltaForest
