import DeltaForest.Proofs.Exported
import DeltaForest.Proofs.Frame

/-!
# Moves

Children, annotations and entries stand in lists, and a move takes one of them out of its list and
puts it into another list or back into the same one. What that makes of lists is said for lists of
any kind (`Place.Moves`): those in the seats of nodes and those of the entries of references.

In whatever has come about, a move that is planned is made, it does to the lists just that, and it
does nothing else but to set the link of a node that is moved (`Site.Reachable.moves`). How far a
move goes is told by its form (`Shift.IsApt`).
-/

namespace DeltaForest

/-! ## Lists with places in them -/

namespace Place

variable {φ α : Type} {p q target source : Place φ} {a : α} {lists lists' : NodeId → φ → List α}

/-- Two places are in the same list. -/
def SameList (p q : Place φ) : Prop := p.owner = q.owner ∧ p.feature = q.feature

/-- The list that a place is in. -/
def listIn (lists : NodeId → φ → List α) (p : Place φ) : List α := lists p.owner p.feature

theorem SameList.listIn_eq (h : p.SameList q) (lists : NodeId → φ → List α) :
    p.listIn lists = q.listIn lists :=
  congrArg₂ lists h.1 h.2

/-- An element goes from one place to another. -/
structure Moves (target source : Place φ) (a : α) (lists lists' : NodeId → φ → List α) :
    Prop where
  stood : (source.listIn lists)[source.index]? = some a
  stands : (target.listIn lists')[target.index]? = some a
  /-- From one list to another: it is taken out of the one and put into the other. -/
  across : ¬target.SameList source →
    source.listIn lists' = (source.listIn lists).eraseIdx source.index ∧
      target.listIn lists' = (target.listIn lists).insertIdx target.index a
  /-- Within a list: it is taken out and put back. -/
  within : target.SameList source →
    target.listIn lists' = ((target.listIn lists).eraseIdx source.index).insertIdx target.index a

variable [DecidableEq φ]

instance : Decidable (p.SameList q) := inferInstanceAs (Decidable (_ ∧ _))

/-- Lists of which the one that a place is in is another one. -/
def withList (p : Place φ) (lists : NodeId → φ → List α) (xs : List α) : NodeId → φ → List α :=
  fun owner feature => if p.owner = owner ∧ p.feature = feature then xs else lists owner feature

theorem listIn_withList {xs : List α} :
    q.listIn (p.withList lists xs) = if p.SameList q then xs else q.listIn lists := rfl

/-- Taking an element out of one place and putting it into another one moves it. -/
theorem moves_of_steps {between : NodeId → φ → List α}
    (hstood : (source.listIn lists)[source.index]? = some a)
    (hbetween : between = source.withList lists ((source.listIn lists).eraseIdx source.index))
    (hlists' : lists' =
      target.withList between ((target.listIn between).insertIdx target.index a))
    (hland : target.index ≤ (target.listIn between).length) :
    target.Moves source a lists lists' := by
  have htarget : target.listIn lists' = (target.listIn between).insertIdx target.index a := by
    rw [hlists', listIn_withList, if_pos ⟨rfl, rfl⟩]
  refine ⟨hstood, ?_, fun hother => ⟨?_, ?_⟩, fun hsame => ?_⟩
  · rw [htarget, List.getElem?_insertIdx_self, if_pos hland]
  · -- In two lists the removal and the insertion do not meet.
    rw [hlists', listIn_withList, if_neg hother, hbetween, listIn_withList, if_pos ⟨rfl, rfl⟩]
  · have hother' : ¬source.SameList target := fun h => hother ⟨h.1.symm, h.2.symm⟩
    rw [htarget, hbetween, listIn_withList, if_neg hother']
  · have hsame' : source.SameList target := ⟨hsame.1.symm, hsame.2.symm⟩
    rw [htarget, hbetween, listIn_withList, if_pos hsame', hsame.listIn_eq]

end Place

namespace Shift

variable {φ : Type}

/-- A move is put down in the form for how far it goes. -/
def IsApt : Shift φ → Prop
  | elsewhere target source => target.owner ≠ source.owner
  | sameOwner _ feature _ feature' _ => feature ≠ feature'
  | sameList .. => True

theorem isApt_between [DecidableEq φ] (target source : Place φ) :
    (between target source).IsApt := by
  rw [between]
  split
  · split
    · exact trivial
    · next hfeature => exact Ne.symm hfeature
  · next howner => exact Ne.symm howner

/-- A move in the form for how far it goes is the one between its places. -/
theorem IsApt.between_eq [DecidableEq φ] {s : Shift φ} (h : s.IsApt) :
    between s.target s.source = s := by
  cases s with
  | elsewhere target source => exact if_neg (Ne.symm h)
  | sameOwner owner newFeature newIndex oldFeature oldIndex =>
    exact (if_pos rfl).trans (if_neg (Ne.symm h))
  | sameList owner feature newIndex oldIndex => exact (if_pos rfl).trans (if_pos rfl)

end Shift

namespace AnnotationShift

/-- A move is put down in the form for how far it goes. -/
def IsApt : AnnotationShift → Prop
  | elsewhere target source => target.owner ≠ source.owner
  | sameOwner .. => True

theorem isApt_between (target source : AnnotationPlace) : (between target source).IsApt := by
  rw [between]
  split
  · exact trivial
  · next howner => exact Ne.symm howner

end AnnotationShift

/-! ## Lists of a table -/

namespace NodeTable

variable {t t' : NodeTable} {id : NodeId} {edits : List (NodeId × Facet)}

/-- The entries of a reference of a node. -/
def related (t : NodeTable) (owner : NodeId) (r : Handle) : List Entry := t.entriesAt ⟨owner, r, 0⟩

theorem seated_withList {p : Place Seat} {ids : List NodeId} (ho : p.owner ∈ t) :
    (t.withSeated p.owner p.feature ids).seated = p.withList t.seated ids :=
  funext₂ fun _ _ => seated_withSeated ho

theorem related_withList {p : Place Handle} {es : List Entry} (ho : p.owner ∈ t) :
    (t.withEntries p es).related = p.withList t.related es :=
  funext₂ fun _ _ => entriesAt_withEntries ho

theorem seated_adopted {above : NodeId} : (t.adopted id above).seated = t.seated := by
  funext owner s
  rw [seated, lookup_adopted, seated, Option.map_map]
  congr 2
  funext n
  by_cases hid : id = owner
  · cases s <;> simp [hid, Node.seated, Node.children]
  · simp [hid]

theorem moves_moved {target source : Place Seat} (hs : t.at? source = some id)
    (ho : target.owner ∈ t)
    (hi : target.index ≤ ((t.removed source).seated target.owner target.feature).length) :
    target.Moves source id t.seated (t.moved target source id).seated := by
  rw [moved, seated_adopted]
  exact Place.moves_of_steps hs (seated_withList (mem_of_at? hs))
    (seated_withList (mem_removed.2 ho)) hi

/-- If only the link of a node is edited, and nothing below it, what is below it is found as
    before. -/
theorem Keeps.lookup_below (h : t.Keeps t' edits) (hstay : ∀ k, Above t.above? id k → k ∈ t')
    (hedits : ∀ edit ∈ edits, Above t.above? id edit.1 → edit = (id, .parent)) {k : NodeId}
    {n : Node} (hk : Above t.above? id k) (hn : t[k]? = some n) :
    t'[k]? = some (if k = id then { n with parent := t'.above? id } else n) := by
  obtain ⟨n', hn'⟩ := mem_iff_exists.1 (hstay k hk)
  rw [hn']
  split
  · next heq =>
    subst heq
    rw [above?_eq hn']
    refine congrArg some ((h k n n' hn hn').rest fun facet hfacet => ?_)
    exact (Prod.mk.inj (hedits _ hfacet hk)).2
  · next hne =>
    refine congrArg some (h.eq_of_notMem hn hn' fun hmem => ?_)
    obtain ⟨edit, hedit, rfl⟩ := List.mem_map.1 hmem
    exact hne (congrArg Prod.fst (hedits edit hedit hk))

/-- A node below which nothing is edited keeps what is below it. Only its own link may be edited. -/
theorem Keeps.collect (h : t.Keeps t' edits) (ht : t.Treelike) (hid : id ∈ t)
    (hstay : ∀ k, Above t.above? id k → k ∈ t')
    (hedits : ∀ edit ∈ edits, Above t.above? id edit.1 → edit = (id, .parent)) :
    ∃ s, t.collect id = .ok s ∧
      t'.collect id = .ok ⟨{ s.root with parent := t'.above? id }, s.descendants⟩ := by
  have hbelow {k : NodeId} {n : Node} (hk : Above t.above? id k) (hn : t[k]? = some n) :=
    h.lookup_below hstay hedits hk hn
  obtain ⟨s, hs⟩ := ht.exists_collect hid
  have hroot : t[id]? = some s.root := by
    have hlookup := (lookup_of_mem_collect ht.keyed hs List.mem_cons_self).2
    rwa [id_root_collect ht.keyed hs] at hlookup
  have hdown : t'.depthFirst id = t.depthFirst id := by
    refine depthFirst_congr fun k hk => ?_
    obtain ⟨n, hn⟩ := mem_iff_exists.1 (ht.mem_of_mem_depthFirst hid hk)
    rw [hbelow (ht.mem_depthFirst.1 hk) hn, hn]
    split <;> rfl
  obtain ⟨rest, hrest⟩ := depthFirst_eq_cons t id
  have hnodup : (id :: rest).Nodup := hrest ▸ nodup_depthFirst
  refine ⟨s, hs, collect_eq_ok.2 ?_⟩
  rw [hdown, hrest, List.map_cons, hbelow .self hroot, if_pos rfl]
  refine congrArg _ ?_
  -- What is below is found as before, one after the other.
  have hnodes := collect_eq_ok.1 hs
  rw [hrest, List.map_cons] at hnodes
  rw [← (List.cons.inj hnodes).2]
  refine List.map_congr_left fun k hk => ?_
  have hk' : k ∈ t.depthFirst id := hrest ▸ List.mem_cons_of_mem _ hk
  obtain ⟨n, hn⟩ := mem_iff_exists.1 (ht.mem_of_mem_depthFirst hid hk')
  rw [hbelow (ht.mem_depthFirst.1 hk') hn, hn, if_neg]
  rintro rfl
  exact (List.nodup_cons.1 hnodup).1 hk

/-- Neither where a node has been nor where it goes is below it. -/
theorem Treelike.eq_link_of_moving (ht : t.Treelike) {target source : Place Seat}
    (hs : t.at? source = some id) (hbelow : ¬Above t.above? id target.owner) :
    ∀ edit ∈ [target.seatFacet, source.seatFacet, (id, Facet.parent)],
      Above t.above? id edit.1 → edit = (id, Facet.parent) := by
  intro edit hedit habove
  simp only [List.mem_cons, List.not_mem_nil, or_false] at hedit
  rcases hedit with rfl | rfl | rfl
  · exact absurd habove hbelow
  · exact absurd habove ((ht.grounded id).not_above_up (ht.above?_of_at? hs))
  · rfl

end NodeTable

/-! ## Moves in a forest -/

namespace Forest

variable {f f' : Forest} {c : Change}

/-- A node goes from one place to another, with all that is below it, and nothing else happens. -/
structure MovesNode (f f' : Forest) (target source : Place Seat) (id : NodeId) : Prop where
  lists : target.Moves source id f.nodes.seated f'.nodes.seated
  link : f'.nodes.above? id = some target.owner
  below : ∃ s, f.nodes.collect id = .ok s ∧
    f'.nodes.collect id = .ok ⟨{ s.root with parent := some target.owner }, s.descendants⟩
  ids : ∀ k, k ∈ f'.nodes ↔ k ∈ f.nodes
  partitions : f'.partitions = f.partitions
  kept : f.nodes.Keeps f'.nodes [target.seatFacet, source.seatFacet, (id, .parent)]

/-- An entry goes from one place to another, and nothing else happens. -/
structure MovesEntry (f f' : Forest) (target source : Place Handle) (e : Entry) : Prop where
  lists : target.Moves source e f.nodes.related f'.nodes.related
  ids : ∀ k, k ∈ f'.nodes ↔ k ∈ f.nodes
  partitions : f'.partitions = f.partitions
  kept : f.nodes.Keeps f'.nodes [target.entriesFacet, source.entriesFacet]

theorem movesNode_of_fits {target source : Place Seat} {id : NodeId} (h : f.WellFormed)
    (hc : c.Fits f.model) (hr : c.reshaping? = some (.move target source id)) :
    f.MovesNode (f.changed c) target source id := by
  have ht := h.treelike
  have hfits := Change.fits_of_reshaping ht hc hr
  have hkept := Reshaping.keeps_outcome hfits (List.forall_mem_nil _)
  obtain ⟨hs, ho, hbelow, hi⟩ := hfits
  have hid : id ∈ f.nodes := (ht.mem_of_above? (ht.above?_of_at? hs)).1
  have hnodes : (f.changed c).nodes = f.nodes.moved target source id :=
    Change.outcome_of_reshaping hr _
  have hlink : (f.nodes.moved target source id).above? id = some target.owner := by
    rw [NodeTable.above?_moved hid, if_pos rfl]
  -- What is below the moved node stays there, so its subtree is as it was.
  have hcollect := hkept.collect ht hid
    (fun k hk => NodeTable.mem_moved.2 (ht.mem_of_mem_depthFirst hid (ht.mem_depthFirst.2 hk)))
    (ht.eq_link_of_moving hs hbelow)
  exact {
    lists := hnodes ▸ NodeTable.moves_moved hs ho hi
    link := hnodes ▸ hlink
    below := by
      rw [hnodes, ← hlink]
      exact hcollect
    ids := fun k => hnodes ▸ NodeTable.mem_moved
    partitions := Change.roots_of_reshaping hr _
    kept := hnodes ▸ hkept }

theorem movesEntry_of_fits {shift : Shift Handle} {e : Entry}
    (hc : (Change.entryMoved shift e).Fits f.model) :
    f.MovesEntry (f.changed (.entryMoved shift e)) shift.target shift.source e := by
  obtain ⟨⟨n, info, hslot, hland⟩, he, -⟩ := hc
  obtain ⟨hso, hs⟩ := Model.entriesAt_of_entryAt he
  obtain ⟨ho, hentries⟩ := Model.entriesAt_of_slot hslot
  refine ⟨?_, fun k => (NodeTable.mem_edited (t := f.nodes.entryRemoved shift.source)).trans
    NodeTable.mem_edited, rfl, Change.keeps_of_content rfl⟩
  exact Place.moves_of_steps hs (NodeTable.related_withList hso)
    (NodeTable.related_withList (NodeTable.mem_edited.2 ho))
    (NodeTable.landing_entries hso hs (hentries ▸ hland))

/-- Every move that is planned is made, and does what it says. -/
structure MovesAsPlanned (f : Forest) : Prop where
  child : ∀ {target : Place Handle} {moved : NodeId} {c : Change},
    f.model.planMoveChild target moved = .ok c → ∃ shift f', c = .childMoved shift moved ∧
      shift.target = target ∧ shift.IsApt ∧ Action.apply c f = .ok () f' ∧
      f.MovesNode f' target.seat shift.source.seat moved
  annotated : ∀ {target : AnnotationPlace} {moved : NodeId} {c : Change},
    f.model.planMoveAnnotation target moved = .ok c → ∃ shift f', c = .annotationMoved shift moved ∧
      shift.target = target ∧ shift.IsApt ∧ Action.apply c f = .ok () f' ∧
      f.MovesNode f' target.seat shift.source.seat moved
  entry : ∀ {target source : Place Handle} {c : Change},
    f.model.planMoveEntry target source = .ok c → ∃ shift moved f', c = .entryMoved shift moved ∧
      shift.target = target ∧ shift.source = source ∧ shift.IsApt ∧
      Action.apply c f = .ok () f' ∧ f.MovesEntry f' target source moved

/-- Planned moves of a well-formed forest do what they say. -/
theorem WellFormed.movesAsPlanned (h : f.WellFormed) : f.MovesAsPlanned where
  -- A plan that is accepted is applied as it stands.
  child {target moved c} hplan := by
    obtain ⟨hreplan, -, happly⟩ :=
      Action.apply_of_plan (e := .moveChild target moved) h hplan (List.forall_mem_nil _)
    obtain ⟨-, -, source, -, -, -, -, -, rfl⟩ := Model.planMoveChild_eq_ok.1 hplan
    have hmoves := movesNode_of_fits h (Model.fits_of_replan hreplan) rfl
    rw [Shift.target_between] at hmoves
    exact ⟨_, _, rfl, Shift.target_between _ _, Shift.isApt_between _ _, happly, hmoves⟩
  annotated {target moved c} hplan := by
    obtain ⟨hreplan, -, happly⟩ :=
      Action.apply_of_plan (e := Edit.moveAnnotation target moved) h hplan (List.forall_mem_nil _)
    obtain ⟨-, source, -, -, -, -, rfl⟩ := Model.planMoveAnnotation_eq_ok.1 hplan
    have hmoves := movesNode_of_fits h (Model.fits_of_replan hreplan) rfl
    rw [AnnotationShift.target_between] at hmoves
    exact ⟨_, _, rfl, AnnotationShift.target_between _ _, AnnotationShift.isApt_between _ _, happly,
      hmoves⟩
  entry {target source c} hplan := by
    obtain ⟨hreplan, -, happly⟩ :=
      Action.apply_of_plan (e := .moveEntry target source) h hplan (List.forall_mem_nil _)
    obtain ⟨e, -, -, -, -, -, -, rfl⟩ := Model.planMoveEntry_eq_ok.1 hplan
    have hmoves := movesEntry_of_fits (Model.fits_of_replan hreplan)
    rw [Shift.target_between, Shift.source_between] at hmoves
    exact ⟨_, _, _, rfl, Shift.target_between _ _, Shift.source_between _ _,
      Shift.isApt_between _ _, happly, hmoves⟩

end Forest

/-- In whatever has come about, every move that is planned is made, and does what it says. -/
theorem Site.Reachable.moves {types : TypeRegistry} {site : Site} {past : List Checkpoint}
    {made : List Change} (h : Site.Reachable types site past made) : site.forest.MovesAsPlanned :=
  h.sound.wellFormed.movesAsPlanned

/-! ## The first book behind the second one -/

namespace Examples

/-- The last place in the library. -/
def lastShelf : Place Handle := ⟨⟨"city"⟩, ⟨2⟩, 1⟩

/-- The first book goes behind the second one. -/
def reordering : Change := .childMoved (.sameList ⟨"city"⟩ ⟨2⟩ 1 0) ⟨"novel"⟩

theorem plan_reordering :
    paired.forest.model.planMoveChild lastShelf ⟨"novel"⟩ = .ok reordering := by
  decide +kernel

/-- Afterwards the second book stands before the first one. -/
theorem moves_reordering : ∃ f', Forest.Action.apply reordering paired.forest = .ok () f' ∧
    f'.nodes.seated ⟨"city"⟩ (.containment ⟨2⟩) = [⟨"companion"⟩, ⟨"novel"⟩] := by
  obtain ⟨shift, f', hshift, -, -, happly, hmoves⟩ :=
    (Site.Reachable.moves reachable_paired).child plan_reordering
  cases hshift
  refine ⟨f', happly, (hmoves.lists.within ⟨rfl, rfl⟩).trans ?_⟩
  decide +kernel

end Examples

end DeltaForest
