import DeltaForest.Proofs.Accounting
import DeltaForest.Proofs.Moves

/-!
# Moves over something else

A child, an annotation or an entry may be moved to where another one is, which is deleted. In the
list where it goes it is put over the other one, and only then is it taken out of the place where it
was (`Place.MovesOver`). Within one list that takes place before what has been put there, the moved
element ends one position earlier than it was put (`Place.landing`).

In whatever has come about, such a move that is planned is made, what it records of the one that is
deleted is what there was, just that one leaves with all its descendants, and the one that is moved
keeps its own (`Site.Reachable.displaces`).
-/

namespace DeltaForest

/-! ## Lists with places in them -/

namespace Place

variable {φ α : Type} {p q target source : Place φ} {a old : α}
variable {lists lists' lists'' : NodeId → φ → List α}

section Landing

variable [DecidableEq φ]

/-- The position of an element that has been moved over another one. -/
def landing (target source : Place φ) : Nat :=
  if target.SameList source ∧ source.index < target.index then target.index - 1 else target.index

/-- An element goes to the place of another one. -/
structure MovesOver (target source : Place φ) (a old : α) (lists lists' : NodeId → φ → List α) :
    Prop where
  stood : (source.listIn lists)[source.index]? = some a
  covered : (target.listIn lists)[target.index]? = some old
  lands : (target.listIn lists')[target.landing source]? = some a
  /-- From one list to another: it is taken out of the one and put over an element of the other. -/
  across : ¬target.SameList source →
    source.listIn lists' = (source.listIn lists).eraseIdx source.index ∧
      target.listIn lists' = (target.listIn lists).set target.index a
  /-- Within a list: it is put over another element, and then taken out of where it was. -/
  within : target.SameList source →
    target.listIn lists' = ((target.listIn lists).set target.index a).eraseIdx source.index
  /-- Without the two elements the list is as it was without them. -/
  order : target.SameList source → (target.listIn lists').eraseIdx (target.landing source) =
    ((target.listIn lists).eraseIdx source.index).eraseIdx (target.landing source)

/-- Putting an element over another one and then taking it out of where it was comes to putting it
    over the other one in the list without it. -/
theorem set_eraseIdx_landing {xs : List α} (hsame : target.SameList source)
    (hne : source.index ≠ target.index) : (xs.set target.index a).eraseIdx source.index =
      (xs.eraseIdx source.index).set (target.landing source) a := by
  rw [landing]
  by_cases hlt : source.index < target.index
  · rw [if_pos ⟨hsame, hlt⟩, List.eraseIdx_set_lt hlt]
  · rw [if_neg fun h => hlt h.2, List.eraseIdx_set_gt (by omega)]

theorem landing_lt {n : Nat} (hne : source.index ≠ target.index) (hi : source.index < n)
    (hj : target.index < n) (hsame : target.SameList source) :
    target.landing source < n - 1 := by
  rw [landing]
  by_cases hlt : source.index < target.index
  · rw [if_pos ⟨hsame, hlt⟩]
    omega
  · rw [if_neg fun h => hlt h.2]
    omega

omit [DecidableEq φ] in
/-- Two places in the same list that are different are at different positions. -/
theorem SameList.index_ne (hsame : target.SameList source) (hne : source ≠ target) :
    source.index ≠ target.index := by
  intro heq
  cases source
  cases target
  obtain ⟨rfl, rfl⟩ := hsame
  exact hne (congrArg _ heq)

/-- Putting an element over another one and taking it out of another place moves it over. -/
theorem movesOver_of_steps {between : NodeId → φ → List α}
    (hstood : (source.listIn lists)[source.index]? = some a)
    (hcovered : (target.listIn lists)[target.index]? = some old) (hne : source ≠ target)
    (hbetween : between = target.withList lists ((target.listIn lists).set target.index a))
    (hlists' : lists' =
      source.withList between ((source.listIn between).eraseIdx source.index)) :
    target.MovesOver source a old lists lists' := by
  have hi := (List.getElem?_eq_some_iff.1 hstood).1
  have hj := (List.getElem?_eq_some_iff.1 hcovered).1
  have hacross (hother : ¬target.SameList source) :
      source.listIn lists' = (source.listIn lists).eraseIdx source.index ∧
        target.listIn lists' = (target.listIn lists).set target.index a := by
    have hother' : ¬source.SameList target := fun h => hother ⟨h.1.symm, h.2.symm⟩
    constructor
    · rw [hlists', listIn_withList, if_pos ⟨rfl, rfl⟩, hbetween, listIn_withList, if_neg hother]
    · rw [hlists', listIn_withList, if_neg hother', hbetween, listIn_withList, if_pos ⟨rfl, rfl⟩]
  have hwithin (hsame : target.SameList source) : target.listIn lists' =
      ((target.listIn lists).set target.index a).eraseIdx source.index := by
    have hsame' : source.SameList target := ⟨hsame.1.symm, hsame.2.symm⟩
    rw [hlists', listIn_withList, if_pos hsame', hbetween, listIn_withList, if_pos hsame]
  have hlanding (hsame : target.SameList source) : target.listIn lists' =
      ((target.listIn lists).eraseIdx source.index).set (target.landing source) a :=
    (hwithin hsame).trans (set_eraseIdx_landing hsame (hsame.index_ne hne))
  refine ⟨hstood, hcovered, ?_, hacross, hwithin, fun hsame => ?_⟩
  · by_cases hsame : target.SameList source
    · rw [hlanding hsame]
      rw [← hsame.listIn_eq] at hi
      refine List.getElem?_set_self ?_
      rw [List.length_eraseIdx_of_lt hi]
      exact landing_lt (hsame.index_ne hne) hi hj hsame
    · rw [(hacross hsame).2, landing, if_neg fun h => hsame h.1]
      exact List.getElem?_set_self hj
  · rw [hlanding hsame, List.eraseIdx_set_eq]

/-- Other lists than those that the two places are in do not matter. -/
theorem MovesOver.congr (h : target.MovesOver source a old lists lists')
    (htarget : target.listIn lists'' = target.listIn lists')
    (hsource : source.listIn lists'' = source.listIn lists') :
    target.MovesOver source a old lists lists'' := by
  obtain ⟨hstood, hcovered, hlands, hacross, hwithin, horder⟩ := h
  rw [← htarget] at hlands hacross hwithin horder
  rw [← hsource] at hacross
  exact ⟨hstood, hcovered, hlands, hacross, hwithin, horder⟩

end Landing

end Place

/-! ## Lists of a table -/

namespace NodeTable

variable {t : NodeTable} {target source : Place Seat} {id old : NodeId}

theorem seated_felled {owner : NodeId} {s : Seat} (h : owner ∉ t.depthFirst old) :
    (t.felled old).seated owner s = t.seated owner s := by
  rw [seated, lookup_felled, if_neg h, seated]

namespace Treelike

variable (ht : t.Treelike) (htarget : t.at? target = some old)

include ht htarget

theorem movesOver_movedAndReplaced (hs : t.at? source = some id)
    (hold : ¬Above t.above? old id) : target.MovesOver source id old t.seated
      (t.movedAndReplaced target source id old).seated := by
  have hne : source ≠ target := by
    rintro rfl
    exact hold (Option.some.inj (hs.symm.trans htarget) ▸ .self)
  have hlists : target.MovesOver source id old t.seated
      ((t.replaced target id).removed source).seated :=
    Place.movesOver_of_steps hs htarget hne (seated_withList (mem_of_at? htarget))
      (seated_withList (mem_replaced.2 (mem_of_at? hs)))
  -- Neither of the two places is at a node that leaves.
  have hdown := ht.depthFirst_of_move htarget hs hold
  have howner : target.owner ∉ t.depthFirst old := ht.owner_notMem_depthFirst htarget
  have howner' : source.owner ∉ t.depthFirst old := by
    rw [ht.mem_depthFirst]
    exact fun habove => hold (.step (ht.above?_of_at? hs) habove)
  rw [NodeTable.movedAndReplaced, seated_adopted]
  exact hlists.congr (seated_felled (hdown ▸ howner)) (seated_felled (hdown ▸ howner'))

/-- What is below a node that is moved is not below the one whose place it takes. -/
theorem not_above_of_move {k : NodeId} (hbelow : ¬Above t.above? id target.owner)
    (hold : ¬Above t.above? old id) (hk : Above t.above? id k) : ¬Above t.above? old k := by
  intro hk'
  rcases hk.or_above hk' with habove | habove
  · -- Then it is above the owner of the place, for it is not the one whose place it takes.
    cases habove with
    | self => exact hold .self
    | step hup habove =>
      rw [ht.above?_of_at? htarget] at hup
      exact hbelow (Option.some.inj hup ▸ habove)
  · exact hold habove

end Treelike

end NodeTable

/-! ## Moves in a forest -/

namespace Forest

variable {f f' : Forest} {c : Change}

/-- A node goes to the place of another one, with all that is below it. The other one leaves with
    all that is below it, and nothing else happens. -/
structure MovesNodeOver (f f' : Forest) (target source : Place Seat) (id : NodeId)
    (old : Subtree) : Prop where
  lists : target.MovesOver source id old.root.id f.nodes.seated f'.nodes.seated
  recorded : f.nodes.Records old
  ids : ∀ k, k ∈ f'.nodes ↔ k ∈ f.nodes ∧ ¬Above f.nodes.above? old.root.id k
  link : f'.nodes.above? id = some target.owner
  below : ∃ s, f.nodes.collect id = .ok s ∧
    f'.nodes.collect id = .ok ⟨{ s.root with parent := some target.owner }, s.descendants⟩
  partitions : f'.partitions = f.partitions
  kept : f.nodes.Keeps f'.nodes [target.seatFacet, source.seatFacet, (id, .parent)]

/-- An entry goes to the place of another one, and nothing else happens. -/
structure MovesEntryOver (f f' : Forest) (target source : Place Handle) (e old : Entry) :
    Prop where
  lists : target.MovesOver source e old f.nodes.related f'.nodes.related
  ids : ∀ k, k ∈ f'.nodes ↔ k ∈ f.nodes
  partitions : f'.partitions = f.partitions
  kept : f.nodes.Keeps f'.nodes [target.entriesFacet, source.entriesFacet]

theorem movesNodeOver_of_fits {target source : Place Seat} {id : NodeId} {old : Subtree}
    (h : f.WellFormed) (hc : c.Fits f.model)
    (hr : c.reshaping? = some (.moveAndReplace target source id old.root.id))
    (hout : old ∈ c.outgoing) : f.MovesNodeOver (f.changed c) target source id old := by
  have ht := h.treelike
  have hfits := Change.fits_of_reshaping ht hc hr
  have hkept := Reshaping.keeps_outcome hfits (List.forall_mem_nil _)
  obtain ⟨htarget, hs, hbelow, hold⟩ := hfits
  have hid : id ∈ f.nodes := (ht.mem_of_above? (ht.above?_of_at? hs)).1
  have hnodes : (f.changed c).nodes = f.nodes.movedAndReplaced target source id old.root.id :=
    Change.outcome_of_reshaping hr _
  have hids (k : NodeId) : k ∈ f.nodes.movedAndReplaced target source id old.root.id ↔
      k ∈ f.nodes ∧ ¬Above f.nodes.above? old.root.id k := by
    rw [ht.mem_movedAndReplaced htarget hs hold, ht.mem_depthFirst]
  have hlink : (f.nodes.movedAndReplaced target source id old.root.id).above? id =
      some target.owner := by
    rw [ht.above?_movedAndReplaced htarget hs hold, if_pos rfl]
  -- The subtree that is moved is not below the one that goes.
  have hcollect := hkept.collect ht hid
    (fun k hk => (hids k).2 ⟨ht.mem_of_mem_depthFirst hid (ht.mem_depthFirst.2 hk),
      ht.not_above_of_move htarget hbelow hold hk⟩)
    (ht.eq_link_of_moving hs hbelow)
  exact {
    lists := hnodes ▸ ht.movesOver_movedAndReplaced htarget hs hold
    recorded := Change.records_of_outgoing ht hc hout
    ids := fun k => hnodes ▸ hids k
    link := hnodes ▸ hlink
    below := by
      rw [hnodes, ← hlink]
      exact hcollect
    partitions := Change.roots_of_reshaping hr _
    kept := hnodes ▸ hkept }

theorem movesEntryOver_of_fits {shift : Shift Handle} {e old : Entry}
    (hc : (Change.entryMovedAndReplaced shift e old).Fits f.model) :
    f.MovesEntryOver (f.changed (.entryMovedAndReplaced shift e old)) shift.target shift.source e
      old := by
  obtain ⟨he, hold, hne, -⟩ := hc
  obtain ⟨hso, hs⟩ := Model.entriesAt_of_entryAt he
  obtain ⟨ho, htarget⟩ := Model.entriesAt_of_entryAt hold
  have hread : (f.nodes.edited shift.source.owner fun n => n).related = f.nodes.related :=
    funext₂ fun _ _ => NodeTable.entriesAt_edited_self
  refine ⟨?_, fun k => ?_, rfl, Change.keeps_of_content rfl⟩
  · rw [← hread]
    exact Place.movesOver_of_steps (hread ▸ hs) (hread ▸ htarget) hne
      (NodeTable.related_withList (NodeTable.mem_edited.2 ho))
      (NodeTable.related_withList (NodeTable.mem_edited.2 (NodeTable.mem_edited.2 hso)))
  · exact NodeTable.mem_edited.trans (NodeTable.mem_edited.trans NodeTable.mem_edited)

/-- Every move over something else that is planned is made, and does what it says. -/
structure DisplacesAsPlanned (f : Forest) : Prop where
  child : ∀ {target : Place Handle} {moved old : NodeId} {c : Change},
    f.model.planMoveAndReplaceChild target moved old = .ok c → ∃ shift gone f',
      c = .childMovedAndReplaced shift moved gone ∧ gone.root.id = old ∧
      shift.target = target ∧ shift.IsApt ∧ Action.apply c f = .ok () f' ∧
      f.MovesNodeOver f' target.seat shift.source.seat moved gone
  annotated : ∀ {target : AnnotationPlace} {moved old : NodeId} {c : Change},
    f.model.planMoveAndReplaceAnnotation target moved old = .ok c → ∃ shift gone f',
      c = .annotationMovedAndReplaced shift moved gone ∧ gone.root.id = old ∧
      shift.target = target ∧ shift.IsApt ∧ Action.apply c f = .ok () f' ∧
      f.MovesNodeOver f' target.seat shift.source.seat moved gone
  entry : ∀ {target source : Place Handle} {c : Change},
    f.model.planMoveAndReplaceEntry target source = .ok c → ∃ shift moved old f',
      c = .entryMovedAndReplaced shift moved old ∧ shift.target = target ∧
      shift.source = source ∧ shift.IsApt ∧ Action.apply c f = .ok () f' ∧
      f.MovesEntryOver f' target source moved old

/-- Planned moves over something else do what they say in a well-formed forest. -/
theorem WellFormed.displacesAsPlanned (h : f.WellFormed) : f.DisplacesAsPlanned where
  -- A plan that is accepted is applied as it stands.
  child {target moved old c} hplan := by
    obtain ⟨hreplan, -, happly⟩ := Action.apply_of_plan
      (e := .moveAndReplaceChild target moved old) h hplan (List.forall_mem_nil _)
    obtain ⟨source, gone, -, -, -, -, hleaving, rfl⟩ :=
      Model.planMoveAndReplaceChild_eq_ok.1 hplan
    have hmoves := movesNodeOver_of_fits h (Model.fits_of_replan hreplan) rfl
      (List.mem_singleton_self gone)
    rw [Shift.target_between] at hmoves
    exact ⟨_, _, _, rfl, Model.id_of_leaving h.treelike.keyed hleaving,
      Shift.target_between _ _, Shift.isApt_between _ _, happly, hmoves⟩
  annotated {target moved old c} hplan := by
    obtain ⟨hreplan, -, happly⟩ := Action.apply_of_plan
      (e := Edit.moveAndReplaceAnnotation target moved old) h hplan (List.forall_mem_nil _)
    obtain ⟨source, gone, -, -, -, -, hleaving, rfl⟩ :=
      Model.planMoveAndReplaceAnnotation_eq_ok.1 hplan
    have hmoves := movesNodeOver_of_fits h (Model.fits_of_replan hreplan) rfl
      (List.mem_singleton_self gone)
    rw [AnnotationShift.target_between] at hmoves
    exact ⟨_, _, _, rfl, Model.id_of_leaving h.treelike.keyed hleaving,
      AnnotationShift.target_between _ _, AnnotationShift.isApt_between _ _, happly, hmoves⟩
  entry {target source c} hplan := by
    obtain ⟨hreplan, -, happly⟩ := Action.apply_of_plan
      (e := .moveAndReplaceEntry target source) h hplan (List.forall_mem_nil _)
    obtain ⟨e, old, -, -, -, rfl⟩ := Model.planMoveAndReplaceEntry_eq_ok.1 hplan
    have hmoves := movesEntryOver_of_fits (Model.fits_of_replan hreplan)
    rw [Shift.target_between, Shift.source_between] at hmoves
    exact ⟨_, _, _, _, rfl, Shift.target_between _ _, Shift.source_between _ _,
      Shift.isApt_between _ _, happly, hmoves⟩

end Forest

/-- In whatever has come about, every move over something else that is planned is made, and does
    what it says. -/
theorem Site.Reachable.displaces {types : TypeRegistry} {site : Site} {past : List Checkpoint}
    {made : List Change} (h : Site.Reachable types site past made) :
    site.forest.DisplacesAsPlanned :=
  h.sound.wellFormed.displacesAsPlanned

/-! ## The first book in the place of the second one -/

namespace Examples

/-- The second book as it stands in the library. -/
def standing : Subtree := ⟨{ companion.root with parent := some ⟨"city"⟩ }, []⟩

/-- The first book goes to the last place in the library, where the second one is. -/
def displacement : Change := .childMovedAndReplaced (.sameList ⟨"city"⟩ ⟨2⟩ 1 0) ⟨"novel"⟩ standing

theorem plan_displacement : paired.forest.model.planMoveAndReplaceChild lastShelf ⟨"novel"⟩
    ⟨"companion"⟩ = .ok displacement := by
  have hstanding : paired.forest.model.nodes[(⟨"companion"⟩ : NodeId)]? = some standing.root := by
    decide +kernel
  have hleaving : paired.forest.model.leaving ⟨"companion"⟩ = .ok standing := by
    rw [Model.leaving, NodeTable.collect_of_leaf hstanding (by decide +kernel)]
    decide +kernel
  exact Model.planMoveAndReplaceChild_eq_ok.2 ⟨⟨⟨"city"⟩, ⟨2⟩, 0⟩, standing, by decide +kernel,
    by decide +kernel, by decide +kernel, by decide +kernel, hleaving, rfl⟩

/-- Afterwards the first book is alone in the library, in a position before the one it was put
    at. -/
theorem displaces_companion : ∃ f',
    Forest.Action.apply displacement paired.forest = .ok () f' ∧
    f'.nodes.seated ⟨"city"⟩ (.containment ⟨2⟩) = [⟨"novel"⟩] ∧
    ((⟨"novel"⟩ : NodeId) ∈ f'.nodes ∧ (⟨"companion"⟩ : NodeId) ∉ f'.nodes) := by
  obtain ⟨shift, gone, f', hshift, -, -, -, happly, hmoves⟩ :=
    (Site.Reachable.displaces reachable_paired).child plan_displacement
  cases hshift
  refine ⟨f', happly, (hmoves.lists.within ⟨rfl, rfl⟩).trans ?_, ?_, ?_⟩
  · decide +kernel
  · obtain ⟨n, hn, -⟩ := NodeTable.exists_of_above? hmoves.link
    exact mem_of_lookup hn
  · exact fun hgone => ((hmoves.ids _).1 hgone).2 .self

end Examples

end DeltaForest
