import DeltaForest.Proofs.Moves
import DeltaForest.Proofs.Preorder

/-!
# Moves and back again

A move says where the node or entry came from, and that is enough to undo it. In whatever has come
about, going back to there is planned once the move is made, and it is made, and then the forest
looks as it did before (`Site.Reachable.undoes`).

On the way back all checks are those of a move like any other. They pass for what is known of the
forest before: what has been in a list may be in it, a list for one child or entry is empty without
it, and the node above is not below. That a node is found where it went is due to there being one
place only where it is (`NodeTable.Treelike.eq_of_at?`). In the lists, taking an element out of
where it has been put and putting it back to where it stood comes to nothing (`Place.Moves.back`).
-/

namespace DeltaForest

/-! ## Lists with places in them -/

namespace Place

variable {φ α : Type} {target source : Place φ} {a : α} {lists lists' lists'' : NodeId → φ → List α}

/-- Moving an element back leaves both lists as they were. -/
theorem Moves.back (h : target.Moves source a lists lists')
    (h' : source.Moves target a lists' lists'') :
    target.listIn lists'' = target.listIn lists ∧ source.listIn lists'' = source.listIn lists := by
  obtain ⟨hi, hget⟩ := List.getElem?_eq_some_iff.1 h.stood
  have hstood :
      ((source.listIn lists).eraseIdx source.index).insertIdx source.index a =
        source.listIn lists := by
    rw [← hget, List.insertIdx_eraseIdx_getElem hi]
  -- Within one list the way back is the same move the other way round; between two lists each is
  -- restored by itself.
  by_cases hsame : target.SameList source
  · have hsource : source.listIn lists'' = source.listIn lists := by
      rw [h'.within ⟨hsame.1.symm, hsame.2.symm⟩, ← hsame.listIn_eq, h.within hsame,
        List.eraseIdx_insertIdx_self, hsame.listIn_eq, hstood]
    exact ⟨by rw [hsame.listIn_eq, hsource, hsame.listIn_eq], hsource⟩
  · have hsame' : ¬source.SameList target := fun heq => hsame ⟨heq.1.symm, heq.2.symm⟩
    obtain ⟨hleft, hentered⟩ := h.across hsame
    obtain ⟨hleft', hentered'⟩ := h'.across hsame'
    exact ⟨by rw [hleft', hentered, List.eraseIdx_insertIdx_self],
      by rw [hentered', hleft, hstood]⟩

/-- There is a position for an element where it stood. -/
theorem Moves.landing_back (h : target.Moves source a lists lists') :
    Landing (target.SameList source) (source.listIn lists') source.index := by
  have hi := (List.getElem?_eq_some_iff.1 h.stood).1
  refine ⟨fun hsame => ?_, fun hother => ?_⟩
  · have hj := (List.getElem?_eq_some_iff.1 h.stands).1
    rw [← hsame.listIn_eq] at hi ⊢
    rw [h.within hsame] at hj ⊢
    rw [List.length_insertIdx, List.length_eraseIdx_of_lt hi] at hj ⊢
    grind
  · rw [(h.across hother).1, List.length_eraseIdx_of_lt hi]
    omega

/-- A list that has had room for one element is empty when that one has gone elsewhere. -/
theorem Moves.length_back (h : target.Moves source a lists lists')
    (hother : ¬target.SameList source) (hone : (source.listIn lists).length ≤ 1) :
    (source.listIn lists').length = 0 := by
  have hi := (List.getElem?_eq_some_iff.1 h.stood).1
  rw [(h.across hother).1, List.length_eraseIdx_of_lt hi]
  omega

end Place

/-! ## Nodes that look the same again -/

theorem Node.alike_of_same {n n' : Node} (hid : n'.id = n.id) (h : ∀ facet, Facet.Same n n' facet) :
    n.Alike n' where
  id := hid.symm
  classifier := (h .classifier).symm
  parent := (h .parent).symm
  property? p := (h (.property p)).symm
  children c := (h (.seat (.containment c))).symm
  entries r := (h (.entries r)).symm
  annotations := (h (.seat .annotations)).symm

namespace NodeTable

variable {t t' : NodeTable} {id : NodeId} {edits : List (NodeId × Facet)}

/-- In two tables a facet of a node looks the same, unless the node is missing in one of them. -/
def SameIn (t t' : NodeTable) (edit : NodeId × Facet) : Prop :=
  ∀ n n', t[edit.1]? = some n → t'[edit.1]? = some n' → Facet.Same n n' edit.2

theorem sameIn_seatFacet {p : Place Seat} (h : p.listIn t'.seated = p.listIn t.seated) :
    t.SameIn t' p.seatFacet :=
  fun _ _ hn hn' => (seated_eq hn').symm.trans (h.trans (seated_eq hn))

theorem sameIn_entriesFacet {p : Place Handle} (h : p.listIn t'.related = p.listIn t.related) :
    t.SameIn t' p.entriesFacet :=
  fun _ _ hn hn' => (entriesAt_eq hn').symm.trans (h.trans (entriesAt_eq hn))

theorem sameIn_parent (h : t'.above? id = t.above? id) : t.SameIn t' (id, .parent) :=
  fun _ _ hn hn' => (above?_eq hn').symm.trans (h.trans (above?_eq hn))

/-- Nodes look the same if they do in what is edited. -/
theorem Keeps.alike (h : t.Keeps t' edits) (hmem : ∀ k, k ∈ t' ↔ k ∈ t)
    (hedits : ∀ edit ∈ edits, t.SameIn t' edit) : t.Alike t' := by
  intro k
  cases hn : t[k]? with
  | none =>
    rw [notMem_iff.1 (mt (hmem k).1 (notMem_iff.2 hn))]
    exact .none
  | some n =>
    obtain ⟨n', hn'⟩ := mem_iff_exists.1 ((hmem k).2 (mem_of_lookup hn))
    rw [hn']
    refine .some (Node.alike_of_same (h k n n' hn hn').id fun facet => ?_)
    by_cases hfacet : (k, facet) ∈ edits
    · exact hedits _ hfacet n n' hn hn'
    · exact (h k n n' hn hn').facets facet hfacet

end NodeTable

/-! ## The place of a node -/

namespace Node

variable {n : Node} {k : NodeId} {s s' : Seat}

/-- Who is a child in some containment is found. -/
theorem exists_findChild? {c : Handle} (h : k ∈ n.children c) :
    ∃ c' i, n.findChild? k = some (c', i) := by
  cases hc : n.containments[c]? with
  | none => simp [children, hc] at h
  | some ids =>
    rw [children, hc, Option.getD_some] at h
    have hsome : (n.findChild? k).isSome := by
      refine List.findSome?_isSome_iff.2
        ⟨(c, ids), Std.ExtTreeMap.mem_toList_iff_getElem?_eq_some.2 hc, ?_⟩
      simpa using h
    obtain ⟨⟨c', i⟩, hfound⟩ := Option.isSome_iff_exists.1 hsome
    exact ⟨c', i, hfound⟩

theorem nodup_seated (n : Node) (h : n.owned.Nodup) (s : Seat) : (n.seated s).Nodup := by
  refine List.nodup_iff_count_le_one.2 fun k => ?_
  have hcount := n.count_owned_withSeated s [] k
  have honce := List.nodup_iff_count_le_one.1 h k
  rw [List.count_nil] at hcount
  omega

/-- What is owned once is in one seat: without what is in that one, it would not be owned. -/
theorem eq_of_mem_seated (h : n.owned.Nodup) (hs : k ∈ n.seated s) (hs' : k ∈ n.seated s') :
    s = s' := by
  by_contra hne
  have howned : k ∈ (n.withSeated s []).owned :=
    (mem_owned _).2 ⟨s', by rwa [seated_withSeated, if_neg hne]⟩
  have hcount := n.count_owned_withSeated s [] k
  have honce := List.nodup_iff_count_le_one.1 h k
  have := List.count_pos_iff.2 hs
  have := List.count_pos_iff.2 howned
  rw [List.count_nil] at hcount
  omega

end Node

/-- A node is at one place. -/
theorem NodeTable.Treelike.eq_of_at? {t : NodeTable} (ht : t.Treelike) {id : NodeId}
    {p q : Place Seat} (hp : t.at? p = some id) (hq : t.at? q = some id) : p = q := by
  have howner : p.owner = q.owner :=
    Option.some.inj ((ht.above?_of_at? hp).symm.trans (ht.above?_of_at? hq))
  obtain ⟨n, hn⟩ := mem_iff_exists.1 (NodeTable.mem_of_at? hp)
  have hnodup := ht.nodup_owned hn
  rw [NodeTable.at?, NodeTable.seated_eq hn] at hp
  rw [NodeTable.at?, NodeTable.seated_eq (howner ▸ hn)] at hq
  -- As a node owns nobody twice, the seat and the position are known by who sits there.
  have hseat : p.feature = q.feature :=
    Node.eq_of_mem_seated hnodup (List.mem_of_getElem? hp) (List.mem_of_getElem? hq)
  have hindex : p.index = q.index := by
    rw [← List.getElem?_inj (List.getElem?_eq_some_iff.1 hp).1 (n.nodup_seated hnodup _), hp, hseat,
      hq]
  cases p
  cases q
  simp_all

namespace Model

variable {m : Model} {child : NodeId} {place : Place Handle} {spot : AnnotationPlace}

/-- A child is located where it is. -/
theorem locateChild_eq_ok (ht : m.nodes.Treelike) :
    m.locateChild child = .ok place ↔ m.nodes.at? place.seat = some child := by
  refine ⟨at?_of_locateChild, fun h => ?_⟩
  obtain ⟨n, hn, hparent⟩ := NodeTable.exists_of_above? (ht.above?_of_at? h)
  obtain ⟨o, ho⟩ := mem_iff_exists.1 (NodeTable.mem_of_at? h)
  have hin : child ∈ o.children place.feature := by
    rw [NodeTable.at?, NodeTable.seated_eq ho] at h
    exact List.mem_of_getElem? h
  obtain ⟨c, i, hfound⟩ := Node.exists_findChild? hin
  have hlocate : m.locateChild child = .ok ⟨place.owner, c, i⟩ :=
    locateChild_iff.2 ⟨n, o, hn, hparent, ho, hfound⟩
  -- Where it is located it is, and there is one such place only.
  have hplace := ht.eq_of_at? (at?_of_locateChild hlocate) h
  cases place
  cases hplace
  exact hlocate

/-- An annotation is located where it is. -/
theorem locateAnnotation_eq_ok (ht : m.nodes.Treelike) :
    m.locateAnnotation child = .ok spot ↔ m.nodes.at? spot.seat = some child := by
  refine ⟨Model.at?_of_locateAnnotation, fun h => ?_⟩
  obtain ⟨n, hn, hparent⟩ := NodeTable.exists_of_above? (ht.above?_of_at? h)
  obtain ⟨o, ho⟩ := mem_iff_exists.1 (NodeTable.mem_of_at? h)
  have hin : child ∈ o.annotations := by
    rw [NodeTable.at?, NodeTable.seated_eq ho] at h
    exact List.mem_of_getElem? h
  -- The search comes to some place where it sits, and there is only one.
  obtain ⟨i, hfound⟩ : ∃ i, o.annotationIndex? child = some i :=
    Option.isSome_iff_exists.1 (by simpa [Node.annotationIndex?] using hin)
  have hlocate : m.locateAnnotation child = .ok ⟨spot.owner, i⟩ :=
    locateAnnotation_iff.2 ⟨n, o, hn, hparent, ho, hfound⟩
  have hspot := ht.eq_of_at? (Model.at?_of_locateAnnotation hlocate) h
  cases spot
  cases hspot
  exact hlocate

/-- A feature that the classifier of a node admits is a slot of the node. -/
theorem exists_slot {n : Node} {id : NodeId} {kind : ElementKind} {feature : Handle} {count : Nat}
    (hl : m.types.Lawful) (hn : m.nodes[id]? = some n)
    (h : m.types.Admits kind n.classifier feature count) :
    ∃ info, m.slot kind id feature = .ok (n, info) ∧ (info.isMultiple = false → count ≤ 1) := by
  obtain ⟨info, hinfo, hdeclares, hcount⟩ := h
  have hhandle : info.handle = feature := (hl.feature_pointer hinfo).2.2
  exact ⟨info, slot_eq_ok.2 ⟨hinfo, hn, hhandle ▸ hdeclares⟩, hcount⟩

end Model

/-! ## There and back again -/

namespace Forest

variable {f f' f'' : Forest} {id : NodeId}

section Node

variable {p q : Place Seat}

/-- Moving a node back leaves a forest that looks as it did before. -/
theorem MovesNode.back (h : f.MovesNode f' p q id) (h' : f'.MovesNode f'' q p id)
    (ht : f.nodes.Treelike) (htypes : f.types = f''.types) : f.Alike f'' where
  types := htypes
  nodes := by
    obtain ⟨hp, hq⟩ := h.lists.back h'.lists
    have hlink : f.nodes.above? id = some q.owner := ht.above?_of_at? h.lists.stood
    have hkept := h.kept.trans h'.kept fun k hk _ => (h.ids k).2 hk
    have hsame :
        f.nodes.SameIn f''.nodes p.seatFacet ∧ f.nodes.SameIn f''.nodes q.seatFacet ∧
          f.nodes.SameIn f''.nodes (id, .parent) :=
      ⟨NodeTable.sameIn_seatFacet hp, NodeTable.sameIn_seatFacet hq,
        NodeTable.sameIn_parent (h'.link.trans hlink.symm)⟩
    exact hkept.alike (fun k => (h'.ids k).trans (h.ids k)) (by simp [hsame])
  partitions := (h'.partitions.trans h.partitions).symm

/-- The same nodes are below a node that has been moved. -/
theorem MovesNode.above_iff (h : f.MovesNode f' p q id) (ht : f.nodes.Treelike)
    (ht' : f'.nodes.Treelike) (k : NodeId) :
    Above f'.nodes.above? id k ↔ Above f.nodes.above? id k := by
  obtain ⟨s, hs, hs'⟩ := h.below
  rw [← ht.mem_depthFirst, ← ht'.mem_depthFirst, ← NodeTable.ids_collect ht.keyed hs,
    ← NodeTable.ids_collect ht'.keyed hs']
  rfl

/-- The node that a moved node has left is not below it. -/
theorem MovesNode.checkNotBelow (h : f.MovesNode f' p q id) (ht : f.nodes.Treelike)
    (ht' : f'.nodes.Treelike) : f'.model.checkNotBelow id q.owner = .ok () := by
  have hstood : f.nodes.at? q = some id := h.lists.stood
  refine (Model.checkNotBelow_eq_ok ht').2 fun habove => ?_
  exact (ht.grounded id).not_above_up (ht.above?_of_at? hstood) ((h.above_iff ht ht' _).1 habove)

/-- A slot of a node is one as long as the node keeps its classifier. -/
theorem slot_of_keeps {edits : List (NodeId × Facet)} {n : Node} {info : FeatureInfo}
    {kind : ElementKind} {feature : Handle} (hkept : f.nodes.Keeps f'.nodes edits)
    (hedits : (id, Facet.classifier) ∉ edits) (htypes : f'.types = f.types) (hid : id ∈ f'.nodes)
    (h : f.model.slot kind id feature = .ok (n, info)) :
    ∃ n', f'.model.slot kind id feature = .ok (n', info) := by
  obtain ⟨hinfo, hn, hdeclares⟩ := Model.slot_eq_ok.1 h
  obtain ⟨n', hn'⟩ := mem_iff_exists.1 hid
  have hclassifier : n'.classifier = n.classifier := (hkept id n n' hn hn').facets _ hedits
  have htypes' : f'.model.types = f.model.types := htypes
  exact ⟨n', Model.slot_eq_ok.2 ⟨htypes' ▸ hinfo, hn', by rwa [htypes', hclassifier]⟩⟩

section Back

variable (h : f.WellFormed) (h' : f'.WellFormed) (hl : f.types.Lawful)
  (hconf : f.nodes.Obeys (.conforming f.types)) (htypes : f'.types = f.types)

include h h' hl hconf htypes

/-- Once a child is moved, the way back can be planned. -/
theorem MovesNode.planMoveChild {target source : Place Handle}
    (hmoves : f.MovesNode f' target.seat source.seat id) :
    f'.model.planMoveChild source id = .ok (.childMoved (.between source target) id) := by
  obtain ⟨n, hn⟩ := mem_iff_exists.1 (NodeTable.mem_of_at? hmoves.lists.stood)
  have hlist : source.seat.listIn f.nodes.seated = n.children source.feature :=
    NodeTable.seated_eq hn
  have hadmits := (hconf _ n hn).children source.feature
    (List.ne_nil_of_mem (List.mem_of_getElem? (hlist ▸ hmoves.lists.stood)))
  -- The slot that the child has left is still one, as what it conforms to is kept.
  obtain ⟨info, hslot, hcount⟩ := Model.exists_slot (m := f.model) hl hn hadmits
  obtain ⟨n', hslot⟩ := slot_of_keeps hmoves.kept (by simp [Place.seatFacet]) htypes
    ((hmoves.ids _).2 (mem_of_lookup hn)) hslot
  have hlist' : source.seat.listIn f'.nodes.seated = n'.children source.feature :=
    (Model.seated_of_slot hslot).2
  have hsame : target.seat.SameList source.seat ↔
      target.owner = source.owner ∧ target.feature = source.feature := by
    simp [Place.SameList, Place.seat]
  refine Model.planMoveChild_eq_ok.2 ⟨n', info, target, hslot,
    (Model.locateChild_eq_ok h'.treelike).2 hmoves.lists.stands,
    hmoves.checkNotBelow h.treelike h'.treelike, ?_, fun hother => ?_, rfl⟩
  · rw [← hlist', ← propext hsame]
    exact hmoves.lists.landing_back
  · -- The list has lost the child, so there is room for it.
    rw [← hsame] at hother
    rw [← hlist', checkRoom_eq_ok]
    exact fun hone => hmoves.lists.length_back hother (hlist ▸ hcount hone)

omit hl hconf htypes in
/-- Once an annotation is moved, the way back can be planned. -/
theorem MovesNode.planMoveAnnotation {target source : AnnotationPlace}
    (hmoves : f.MovesNode f' target.seat source.seat id) :
    f'.model.planMoveAnnotation source id =
      .ok (.annotationMoved (.between source target) id) := by
  obtain ⟨n', hn'⟩ := mem_iff_exists.1 ((hmoves.ids _).2 (NodeTable.mem_of_at? hmoves.lists.stood))
  have hlist' : source.seat.listIn f'.nodes.seated = n'.annotations := NodeTable.seated_eq hn'
  have hsame : target.seat.SameList source.seat ↔ target.owner = source.owner := by
    simp [Place.SameList, AnnotationPlace.seat]
  refine Model.planMoveAnnotation_eq_ok.2 ⟨n', target, hn',
    (Model.locateAnnotation_eq_ok h'.treelike).2 hmoves.lists.stands,
    hmoves.checkNotBelow h.treelike h'.treelike, ?_, rfl⟩
  rw [← hlist', ← propext hsame]
  exact hmoves.lists.landing_back

end Back

end Node

section Entry

variable {target source : Place Handle} {e : Entry}

/-- Moving an entry back leaves a forest that looks as it did before. -/
theorem MovesEntry.back (h : f.MovesEntry f' target source e)
    (h' : f'.MovesEntry f'' source target e) (htypes : f.types = f''.types) : f.Alike f'' where
  types := htypes
  nodes := by
    obtain ⟨htarget, hsource⟩ := h.lists.back h'.lists
    have hkept := h.kept.trans h'.kept fun k hk _ => (h.ids k).2 hk
    have hsame : f.nodes.SameIn f''.nodes target.entriesFacet ∧
        f.nodes.SameIn f''.nodes source.entriesFacet :=
      ⟨NodeTable.sameIn_entriesFacet htarget, NodeTable.sameIn_entriesFacet hsource⟩
    exact hkept.alike (fun k => (h'.ids k).trans (h.ids k)) (by simp [hsame])
  partitions := (h'.partitions.trans h.partitions).symm

/-- Once an entry is moved, the way back can be planned. -/
theorem MovesEntry.planMoveEntry (hmoves : f.MovesEntry f' target source e)
    (hconf : f.nodes.Obeys (.conforming f.types)) (htypes : f'.types = f.types)
    {n : Node} {info : FeatureInfo}
    (htarget : f.model.slot .reference target.owner target.feature = .ok (n, info))
    (hsource : f.model.entryAt source = .ok e) :
    f'.model.planMoveEntry source target = .ok (.entryMoved (.between source target) e) := by
  have hslots {p : Place Handle} {n : Node} {info : FeatureInfo}
      (h : f.model.slot .reference p.owner p.feature = .ok (n, info)) :
      ∃ n', f'.model.slot .reference p.owner p.feature = .ok (n', info) :=
    slot_of_keeps hmoves.kept (by simp [Place.entriesFacet]) htypes
      ((hmoves.ids _).2 (mem_of_lookup (Model.slot_eq_ok.1 h).2.1)) h
  obtain ⟨n', htarget'⟩ := hslots htarget
  have hstands : f'.model.entryAt target = .ok e :=
    Model.entryAt_eq_ok.2 ⟨n', info, htarget', by
      rw [← (Model.entriesAt_of_slot htarget').2]
      exact hmoves.lists.stands⟩
  -- The reference that the entry has left had room for it, so it has room for it again.
  obtain ⟨o, info', hslot, hstood⟩ := Model.entryAt_eq_ok.1 hsource
  obtain ⟨hinfo, ho, -⟩ := Model.slot_eq_ok.1 hslot
  obtain ⟨⟨_, hinfo', -, hcount⟩, -⟩ :=
    (hconf _ o ho).entries source.feature (List.ne_nil_of_mem (List.mem_of_getElem? hstood))
  obtain rfl := Except.ok.inj (hinfo.symm.trans hinfo')
  have hlist : source.listIn f.nodes.related = o.entries source.feature :=
    (Model.entriesAt_of_slot hslot).2
  obtain ⟨o', hslot'⟩ := hslots hslot
  have hlist' : source.listIn f'.nodes.related = o'.entries source.feature :=
    (Model.entriesAt_of_slot hslot').2
  refine Model.planMoveEntry_eq_ok.2 ⟨e, o', info', hstands, hslot', ?_, fun hother => ?_, rfl⟩
  · rw [← hlist']
    exact hmoves.lists.landing_back
  · rw [← hlist', checkRoom_eq_ok]
    exact fun hone => hmoves.lists.length_back hother (hlist ▸ hcount hone)

end Entry

/-- Every move can be undone: going back to where the change says that the node or entry came from
    is planned and made, and then all looks as it did before. -/
structure UndoesMoves (f : Forest) : Prop where
  child : ∀ {shift : Shift Handle} {moved : NodeId} {f' : Forest},
    Action.apply (.childMoved shift moved) f = .ok () f' → ∃ back f'',
      back = .childMoved (.between shift.source shift.target) moved ∧
      f'.model.planMoveChild shift.source moved = .ok back ∧
      Action.apply back f' = .ok () f'' ∧ f.Alike f''
  annotated : ∀ {shift : AnnotationShift} {moved : NodeId} {f' : Forest},
    Action.apply (.annotationMoved shift moved) f = .ok () f' → ∃ back f'',
      back = .annotationMoved (.between shift.source shift.target) moved ∧
      f'.model.planMoveAnnotation shift.source moved = .ok back ∧
      Action.apply back f' = .ok () f'' ∧ f.Alike f''
  entry : ∀ {shift : Shift Handle} {moved : Entry} {f' : Forest},
    Action.apply (.entryMoved shift moved) f = .ok () f' → ∃ back f'',
      back = .entryMoved (.between shift.source shift.target) moved ∧
      f'.model.planMoveEntry shift.source shift.target = .ok back ∧
      Action.apply back f' = .ok () f'' ∧ f.Alike f''

/-- In a well-formed forest whose nodes conform to its types, moves can be undone. -/
theorem WellFormed.undoesMoves (h : f.WellFormed) (hl : f.types.Lawful)
    (hconf : f.nodes.Obeys (.conforming f.types)) : f.UndoesMoves where
  child {shift moved f'} happly := by
    obtain ⟨hreplan, rfl⟩ := (Action.apply_eq_ok h.treelike (List.forall_mem_nil _)).1 happly
    have hfits := Model.fits_of_replan hreplan
    have h' := h.changed hfits (List.forall_mem_nil _)
    have hmoves := movesNode_of_fits h hfits rfl
    have hplan := hmoves.planMoveChild h h' hl hconf rfl
    obtain ⟨hback, -, happly'⟩ :=
      Action.apply_of_plan (e := .moveChild shift.source moved) h' hplan (List.forall_mem_nil _)
    -- The way back is a move as well, from where the first one has ended.
    have hmoves' := movesNode_of_fits h' (Model.fits_of_replan hback) rfl
    rw [Shift.target_between, Shift.source_between] at hmoves'
    exact ⟨_, _, rfl, hplan, happly', hmoves.back hmoves' h.treelike rfl⟩
  annotated {shift moved f'} happly := by
    obtain ⟨hreplan, rfl⟩ := (Action.apply_eq_ok h.treelike (List.forall_mem_nil _)).1 happly
    have hfits := Model.fits_of_replan hreplan
    have h' := h.changed hfits (List.forall_mem_nil _)
    have hmoves := movesNode_of_fits h hfits rfl
    have hplan := hmoves.planMoveAnnotation h h'
    obtain ⟨hback, -, happly'⟩ := Action.apply_of_plan
      (e := Edit.moveAnnotation shift.source moved) h' hplan (List.forall_mem_nil _)
    have hmoves' := movesNode_of_fits h' (Model.fits_of_replan hback) rfl
    rw [AnnotationShift.target_between, AnnotationShift.source_between] at hmoves'
    exact ⟨_, _, rfl, hplan, happly', hmoves.back hmoves' h.treelike rfl⟩
  entry {shift moved f'} happly := by
    obtain ⟨hreplan, rfl⟩ := (Action.apply_eq_ok h.treelike (List.forall_mem_nil _)).1 happly
    have hfits := Model.fits_of_replan hreplan
    have h' := h.changed hfits (List.forall_mem_nil _)
    have hmoves := movesEntry_of_fits hfits
    obtain ⟨⟨n, info, hslot, -⟩, hsource, -⟩ := hfits
    have hplan := hmoves.planMoveEntry hconf rfl hslot hsource
    obtain ⟨hback, -, happly'⟩ := Action.apply_of_plan
      (e := .moveEntry shift.source shift.target) h' hplan (List.forall_mem_nil _)
    -- The entry is known by its place only, and that is where the first move has put it.
    have hmoves' := movesEntry_of_fits (Model.fits_of_replan hback)
    rw [Shift.target_between, Shift.source_between] at hmoves'
    exact ⟨_, _, rfl, hplan, happly', hmoves.back hmoves' rfl⟩

end Forest

/-- In whatever has come about, moves can be undone from what they say. -/
theorem Site.Reachable.undoes {types : TypeRegistry} {languages : List Language}
    (htypes : TypeRegistry.registerAll .empty languages = .ok types) {site : Site}
    {past : List Checkpoint} {made : List Change} (h : Site.Reachable types site past made) :
    site.forest.UndoesMoves := by
  have hsound := h.sound
  obtain rfl := hsound.types
  exact hsound.wellFormed.undoesMoves (TypeRegistry.lawful_of_registerAll htypes)
    (h.obeys_conforming htypes)

/-! ## The first book in front of the second one again -/

namespace Examples

/-- The first book goes behind the second one and comes back. -/
theorem undone_reordering : TypeRegistry.registerAll .empty [library] = .ok libraryTypes ∧
    Site.Reachable libraryTypes paired [] [opening, shelving, accompanying] ∧
    ∃ f' f'', Forest.Action.apply reordering paired.forest = .ok () f' ∧
      f'.model.planMoveChild ⟨⟨"city"⟩, ⟨2⟩, 0⟩ ⟨"novel"⟩ =
        .ok (.childMoved (.sameList ⟨"city"⟩ ⟨2⟩ 0 1) ⟨"novel"⟩) ∧
      Forest.Action.apply (.childMoved (.sameList ⟨"city"⟩ ⟨2⟩ 0 1) ⟨"novel"⟩) f' = .ok () f'' ∧
      paired.forest.Alike f'' := by
  have hmade := Forest.Action.apply_of_plan (e := .moveChild lastShelf ⟨"novel"⟩)
    reachable_paired.sound.wellFormed plan_reordering (List.forall_mem_nil _)
  obtain ⟨back, f'', rfl, hplan, happly, halike⟩ :=
    (Site.Reachable.undoes registerAll_library reachable_paired).child hmade.2.2
  exact ⟨registerAll_library, reachable_paired, _, f'', hmade.2.2, hplan, happly, halike⟩

end Examples

end DeltaForest
