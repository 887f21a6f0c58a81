import DeltaForest.Proofs.Reshaping

/-!
# What becomes of a forest

A change is performed step by step, and each step may fail. Here is the forest that a change makes
of another one as a plain function (`Forest.changed`), and the theorem that performing a change
that fits comes to its end and gives just that forest (`perform_eq`). From there on a change is
what `Forest.changed` says.
-/

namespace DeltaForest

namespace NodeTable

variable {t : NodeTable} {k : NodeId} {p q : Place Handle} {es : List Entry}

/-! ## Entries -/

/-- The entries of the reference that a place is in. -/
def entriesAt (t : NodeTable) (p : Place Handle) : List Entry :=
  (t[p.owner]?.map (·.entries p.feature)).getD []

/-- A table with other entries in the reference that a place is in. -/
def withEntries (t : NodeTable) (p : Place Handle) (es : List Entry) : NodeTable :=
  t.edited p.owner (·.withEntries p.feature es)

/-- A table with one more entry at a place. -/
def entryInserted (t : NodeTable) (p : Place Handle) (e : Entry) : NodeTable :=
  t.withEntries p ((t.entriesAt p).insertIdx p.index e)

/-- A table without the entry at a place. -/
def entryRemoved (t : NodeTable) (p : Place Handle) : NodeTable :=
  t.withEntries p ((t.entriesAt p).eraseIdx p.index)

/-- A table with another entry at a place. -/
def entryReplaced (t : NodeTable) (p : Place Handle) (e : Entry) : NodeTable :=
  t.withEntries p ((t.entriesAt p).set p.index e)

/-- A table with the entry at a place edited. -/
def entryEdited (t : NodeTable) (p : Place Handle) (step : Entry → Entry) : NodeTable :=
  match (t.entriesAt p)[p.index]? with
  | some e => t.entryReplaced p (step e)
  | none => t

theorem entriesAt_eq {n : Node} (h : t[p.owner]? = some n) :
    t.entriesAt p = n.entries p.feature := by
  simp [entriesAt, h]

/-- In the reference there are the other entries now, and in any other one those that have been
    there. -/
theorem entriesAt_withEntries (h : p.owner ∈ t) : (t.withEntries p es).entriesAt q =
    if p.owner = q.owner ∧ p.feature = q.feature then es else t.entriesAt q := by
  rw [entriesAt, withEntries, lookup_edited]
  by_cases hp : p.owner = q.owner
  · obtain ⟨n, hn⟩ := mem_iff_exists.1 h
    rw [← hp, entriesAt, ← hp, hn]
    simp [Node.entries_withEntries]
  · simp [hp, entriesAt]

/-- Looking at a node prunes it, which does not change its entries. -/
theorem entriesAt_edited_self : (t.edited k fun n => n).entriesAt q = t.entriesAt q := by
  rw [entriesAt, lookup_edited, entriesAt]
  cases t[q.owner]? with
  | none => rfl
  | some n => by_cases hk : k = q.owner <;> simp [hk]

end NodeTable

/-! ## Changes -/

namespace Change

/-- What a change makes of a table of nodes. -/
def outcome (t : NodeTable) : Change → NodeTable
  | partitionAdded tree => t.planted tree none
  | partitionDeleted tree => t.felled tree.root.id
  | classifierChanged id new _ => t.edited id ({ · with classifier := new })
  | propertyAdded id property new | propertyChanged id property new _ =>
    t.edited id fun n => { n with properties := n.properties.insert property new }
  | propertyDeleted id property _ =>
    t.edited id fun n => { n with properties := n.properties.erase property }
  | childAdded place new => t.attached place.seat new
  | childDeleted place old => t.detached place.seat old.root.id
  | childReplaced place new old => t.exchanged place.seat new old.root.id
  | childMoved shift moved => t.moved shift.target.seat shift.source.seat moved
  | childMovedAndReplaced shift moved old =>
    t.movedAndReplaced shift.target.seat shift.source.seat moved old.root.id
  | annotationAdded place new => t.attached place.seat new
  | annotationDeleted place old => t.detached place.seat old.root.id
  | annotationReplaced place new old => t.exchanged place.seat new old.root.id
  | annotationMoved shift moved => t.moved shift.target.seat shift.source.seat moved
  | annotationMovedAndReplaced shift moved old =>
    t.movedAndReplaced shift.target.seat shift.source.seat moved old.root.id
  | entryAdded place new => t.entryInserted place new
  | entryDeleted place _ => t.entryRemoved place
  | entryChanged place new _ => t.entryReplaced place new
  | entryMoved shift moved => (t.entryRemoved shift.source).entryInserted shift.target moved
  | entryMovedAndReplaced shift moved _ =>
    ((t.edited shift.source.owner fun n => n).entryReplaced shift.target moved).entryRemoved
      shift.source
  | resolveInfoAdded place new _ | resolveInfoChanged place new _ _ =>
    t.entryEdited place ({ · with resolveInfo := some new })
  | resolveInfoDeleted place _ _ => t.entryEdited place ({ · with resolveInfo := none })
  | targetAdded place new _ | targetChanged place new _ _ =>
    t.entryEdited place ({ · with target := some new })
  | targetDeleted place _ _ => t.entryEdited place ({ · with target := none })

/-- What a change makes of the list of partitions. -/
def roots (partitions : List NodeId) : Change → List NodeId
  | partitionAdded tree => partitions ++ [tree.root.id]
  | partitionDeleted tree => partitions.filter (· ≠ tree.root.id)
  | _ => partitions

end Change

/-- What a change makes of a forest. -/
def Forest.changed (f : Forest) (c : Change) : Forest :=
  { f with nodes := c.outcome f.nodes, partitions := c.roots f.partitions }

namespace Forest.Action

variable {f : Forest} {kind : String} {p target source : Place Handle} {e : Entry}

/-- A step that cannot fail edits a node that is there. -/
theorem update_eq {id : NodeId} {n : Node} {step : Node → Node} (hn : f.nodes[id]? = some n) :
    update kind id step f = .ok () { f with nodes := f.nodes.edited id step } := by
  rw [update]
  exact onNode_of_ok hn rfl

/-! ## Steps with entries -/

/-- An entry can be inserted up to the end of the list. -/
theorem insertEntry_eq (ho : p.owner ∈ f.nodes) (hi : p.index ≤ (f.nodes.entriesAt p).length) :
    insertEntry kind p e f = .ok () { f with nodes := f.nodes.entryInserted p e } := by
  obtain ⟨n, hn⟩ := mem_iff_exists.1 ho
  refine onNode_of_ok hn ?_
  rw [NodeTable.entriesAt_eq hn] at hi ⊢
  rw [Position.insert?, if_pos hi]
  rfl

/-- An entry that is there can be removed, and is handed back. -/
theorem removeEntry_eq (ho : p.owner ∈ f.nodes) (h : (f.nodes.entriesAt p)[p.index]? = some e) :
    removeEntry kind p f = .ok e { f with nodes := f.nodes.entryRemoved p } := by
  obtain ⟨n, hn⟩ := mem_iff_exists.1 ho
  refine onNode_of_ok hn ?_
  rw [NodeTable.entriesAt_eq hn] at h ⊢
  rw [Position.remove?, h]
  rfl

/-- An entry that is there can be replaced. -/
theorem replaceEntry_eq (ho : p.owner ∈ f.nodes) (hi : p.index < (f.nodes.entriesAt p).length) :
    replaceEntry kind p e f = .ok () { f with nodes := f.nodes.entryReplaced p e } := by
  obtain ⟨n, hn⟩ := mem_iff_exists.1 ho
  refine onNode_of_ok hn ?_
  rw [NodeTable.entriesAt_eq hn] at hi ⊢
  rw [Position.replace?, if_pos hi]
  rfl

/-- An entry that is there is handed back, and its node is pruned on the way. -/
theorem readEntry_eq (ho : p.owner ∈ f.nodes) (h : (f.nodes.entriesAt p)[p.index]? = some e) :
    readEntry kind p f = .ok e { f with nodes := f.nodes.edited p.owner fun n => n } := by
  obtain ⟨n, hn⟩ := mem_iff_exists.1 ho
  refine onNode_of_ok hn ?_
  rw [NodeTable.entriesAt_eq hn] at h
  rw [h]
  rfl

/-- An entry that is there can be edited. -/
theorem editEntry_eq {step : Entry → Entry} (ho : p.owner ∈ f.nodes)
    (h : (f.nodes.entriesAt p)[p.index]? = some e) :
    editEntry kind p step f = .ok () { f with nodes := f.nodes.entryEdited p step } := by
  obtain ⟨n, hn⟩ := mem_iff_exists.1 ho
  rw [NodeTable.entryEdited, h]
  refine onNode_of_ok hn ?_
  rw [NodeTable.entriesAt_eq hn] at h ⊢
  rw [h]
  rfl

end Forest.Action

/-! ## Where what is moved can land -/

namespace NodeTable

variable {t : NodeTable}

/-- Where there was an entry there is one after another entry has been put at some place. -/
theorem exists_entryReplaced {target source : Place Handle} {e : Entry} (ho : target.owner ∈ t)
    (hs : (t.entriesAt source)[source.index]? = some e) (new : Entry) :
    ∃ e', ((t.entryReplaced target new).entriesAt source)[source.index]? = some e' := by
  rw [entryReplaced, entriesAt_withEntries ho]
  split
  · next hsame =>
    have hentries : t.entriesAt target = t.entriesAt source := by
      rw [entriesAt, entriesAt, hsame.1, hsame.2]
    have hi := (List.getElem?_eq_some_iff.1 hs).1
    exact ⟨_, List.getElem?_eq_getElem (by rwa [hentries, List.length_set])⟩
  · exact ⟨e, hs⟩

/-- Where an entry can land there is a place for it once it has left its own. -/
theorem landing_entries {target source : Place Handle} {e : Entry} (ho : source.owner ∈ t)
    (hs : (t.entriesAt source)[source.index]? = some e)
    (h : Landing (source.owner = target.owner ∧ source.feature = target.feature)
      (t.entriesAt target) target.index) :
    target.index ≤ ((t.entryRemoved source).entriesAt target).length := by
  rw [entryRemoved, entriesAt_withEntries ho]
  split
  · -- Without the entry its own list is one shorter, and the position was not behind the last.
    next hsame =>
    have hi := (List.getElem?_eq_some_iff.1 hs).1
    have hlt := h.1 hsame
    have hentries : t.entriesAt target = t.entriesAt source := by
      rw [entriesAt, entriesAt, hsame.1, hsame.2]
    rw [hentries] at hlt
    rw [List.length_eraseIdx_of_lt hi]
    omega
  · next hother => exact h.2 hother

end NodeTable

namespace Model

variable {m : Model} {place : Place Handle}

/-- An entry that stands at a place is found in the table there. -/
theorem entriesAt_of_entryAt {e : Entry} (h : m.entryAt place = .ok e) :
    place.owner ∈ m.nodes ∧ (m.nodes.entriesAt place)[place.index]? = some e := by
  obtain ⟨n, info, hslot, he⟩ := entryAt_eq_ok.1 h
  have hn := (slot_eq_ok.1 hslot).2.1
  rw [NodeTable.entriesAt_eq hn]
  exact ⟨mem_of_lookup hn, he⟩

/-- The entries in a slot are found in the table there. -/
theorem entriesAt_of_slot {n : Node} {info : FeatureInfo}
    (h : m.slot .reference place.owner place.feature = .ok (n, info)) :
    place.owner ∈ m.nodes ∧ m.nodes.entriesAt place = n.entries place.feature := by
  have hn := (slot_eq_ok.1 h).2.1
  exact ⟨mem_of_lookup hn, NodeTable.entriesAt_eq hn⟩

end Model

/-! ## Performing a change -/

namespace Reshaping

/-- The steps of a reshaping. -/
def action (kind : String) : Reshaping → Forest.Action Unit
  | plant tree => do
    Forest.Action.plant tree none
    modify fun f => { f with partitions := f.partitions ++ [tree.root.id] }
  | fell root => do
    Forest.Action.fell root
    modify fun f => { f with partitions := f.partitions.filter (· ≠ root) }
  | attach p tree => Forest.Action.attach kind p tree
  | detach p old => Forest.Action.detach kind p old
  | exchange p tree old => Forest.Action.exchange kind p tree old
  | move target source id => Forest.Action.move kind target source id
  | moveAndReplace target source id old =>
    Forest.Action.moveAndReplace kind target source id old

/-- What a reshaping makes of the list of partitions. -/
def roots (partitions : List NodeId) : Reshaping → List NodeId
  | plant tree => partitions ++ [tree.root.id]
  | fell root => partitions.filter (· ≠ root)
  | _ => partitions

variable {f : Forest} {r : Reshaping} {kind : String}

/-- The steps of a reshaping that fits come to their end. -/
theorem action_eq (ht : f.nodes.Treelike) (hr : r.Fits f.nodes)
    (htree : ∀ tree ∈ r.incoming, tree.IsTree) : r.action kind f =
      .ok () { f with nodes := r.outcome f.nodes, partitions := r.roots f.partitions } := by
  have hmem {p : Place Seat} {id : NodeId} (h : f.nodes.at? p = some id) : id ∈ f.nodes :=
    (ht.mem_of_above? (ht.above?_of_at? h)).1
  cases r with
  | plant tree =>
    rw [action, bind_of_ok (Forest.Action.plant_eq hr)]
    rfl
  | fell root =>
    rw [action, bind_of_ok (Forest.Action.fell_eq hr.1)]
    rfl
  | attach p tree =>
    obtain ⟨hv, ho, hi⟩ := hr
    exact Forest.Action.attach_eq hv (htree tree List.mem_cons_self).distinct ho hi
  | detach p old => exact Forest.Action.detach_eq hr (hmem hr)
  | exchange p tree old => exact Forest.Action.exchange_eq hr.1 (hmem hr.1) hr.2
  | move target source id =>
    obtain ⟨hs, ho, -, hi⟩ := hr
    exact Forest.Action.move_eq hs (hmem hs) ho hi
  | moveAndReplace target source id old =>
    obtain ⟨htarget, hs, -, hold⟩ := hr
    exact Forest.Action.moveAndReplace_eq ht htarget hs hold

end Reshaping

namespace Change

variable {c : Change} {r : Reshaping} (h : c.reshaping? = some r)

include h

/-- A change that reshapes is performed as its reshaping. -/
theorem perform_of_reshaping : Forest.Action.perform c = r.action c.kind := by
  cases c <;> cases h <;> rfl

/-- A change that reshapes makes of the nodes what its reshaping does. -/
theorem outcome_of_reshaping (t : NodeTable) : c.outcome t = r.outcome t := by
  cases c <;> cases h <;> rfl

/-- A change that reshapes makes of the partitions what its reshaping does. -/
theorem roots_of_reshaping (partitions : List NodeId) :
    c.roots partitions = r.roots partitions := by
  cases c <;> cases h <;> rfl

end Change

/-! ## Changes of properties and references -/

/-- Who looks neither at properties nor at references, and makes no difference between a list that
    is empty and one that is not there, sees nothing of a change of these. -/
theorem Change.view_of_content {α : Type} {view : Node → α} {t : NodeTable} {c : Change}
    (hprune : ∀ n : Node, view n.prune = view n)
    (hview : ∀ (n : Node) properties references,
      view { n with properties := properties, references := references } = view n)
    (hr : c.reshaping? = none) (hc : c.category ≠ .classifier) (k : NodeId) :
    (c.outcome t)[k]?.map view = t[k]?.map view := by
  have hedited {t' : NodeTable} {id : NodeId} {step : Node → Node}
      (ht : t'[k]?.map view = t[k]?.map view) (hstep : ∀ n, view (step n) = view n) :
      (t'.edited id step)[k]?.map view = t[k]?.map view := by
    rw [← ht, NodeTable.lookup_edited, Option.map_map]
    congr 1
    funext n
    show view (if id = k then _ else _) = _
    split
    · rw [hprune, hstep]
    · rfl
  have hentries {t' : NodeTable} {place : Place Handle} {es : List Entry}
      (ht : t'[k]?.map view = t[k]?.map view) :
      (t'.withEntries place es)[k]?.map view = t[k]?.map view :=
    hedited ht fun n => hview n n.properties _
  have hedit {place : Place Handle} {step : Entry → Entry} :
      (t.entryEdited place step)[k]?.map view = t[k]?.map view := by
    rw [NodeTable.entryEdited]
    split
    · exact hentries rfl
    · rfl
  rcases c <;> rcases hr
  case classifierChanged => exact absurd rfl hc
  case propertyAdded | propertyChanged | propertyDeleted =>
    exact hedited rfl fun n => hview n _ n.references
  case entryAdded | entryDeleted | entryChanged => exact hentries rfl
  case entryMoved => exact hentries (hentries rfl)
  case entryMovedAndReplaced => exact hentries (hentries (hedited rfl fun _ => rfl))
  all_goals exact hedit

namespace Forest.Action

variable {f : Forest} {c : Change} {kind : String} {target source : Place Handle} {e : Entry}

/-- An entry that can land is moved: there is still a place for it once it has left its own. -/
theorem moveEntry_eq (hs : source.owner ∈ f.nodes) (ho : target.owner ∈ f.nodes)
    (he : (f.nodes.entriesAt source)[source.index]? = some e)
    (hland : Landing (source.owner = target.owner ∧ source.feature = target.feature)
      (f.nodes.entriesAt target) target.index) : moveEntry kind target source f =
      .ok () { f with nodes := (f.nodes.entryRemoved source).entryInserted target e } := by
  rw [moveEntry, bind_of_ok (removeEntry_eq hs he)]
  exact insertEntry_eq (NodeTable.mem_edited.2 ho) (NodeTable.landing_entries hs he hland)

/-- An entry takes the place of another one, and then leaves its own, where there is still one. -/
theorem moveAndReplaceEntry_eq (hs : source.owner ∈ f.nodes) (ho : target.owner ∈ f.nodes)
    (he : (f.nodes.entriesAt source)[source.index]? = some e)
    (hi : target.index < (f.nodes.entriesAt target).length) :
    moveAndReplaceEntry kind target source f = .ok () { f with nodes :=
      ((f.nodes.edited source.owner fun n => n).entryReplaced target e).entryRemoved source } := by
  -- Reading the entry prunes its node, which does not matter to the entries there.
  obtain ⟨e', he'⟩ := NodeTable.exists_entryReplaced (NodeTable.mem_edited.2 ho)
    (NodeTable.entriesAt_edited_self ▸ he) e
  rw [moveAndReplaceEntry, bind_of_ok (readEntry_eq hs he),
    bind_of_ok (replaceEntry_eq (NodeTable.mem_edited.2 ho)
      (by rwa [NodeTable.entriesAt_edited_self])),
    bind_of_ok (removeEntry_eq (NodeTable.mem_edited.2 (NodeTable.mem_edited.2 hs)) he')]
  rfl

/-- A change that edits single nodes is performed to its end. -/
theorem perform_of_content (hc : c.Fits f.model) (h : c.reshaping? = none) :
    perform c f = .ok () (f.changed c) := by
  -- As the change fits, each of its steps finds what it edits.
  cases c <;> cases h
  case classifierChanged id new old =>
    obtain ⟨-, n, hn, -⟩ := hc
    exact update_eq hn
  case propertyAdded id property new | propertyChanged id property new old =>
    obtain ⟨n, info, hslot, -⟩ := hc
    exact update_eq (Model.slot_eq_ok.1 hslot).2.1
  case propertyDeleted id property old =>
    obtain ⟨n, info, hslot, hold⟩ := hc
    exact onNode_of_ok (Model.slot_eq_ok.1 hslot).2.1 (by rw [hold]; rfl)
  case entryAdded place new =>
    obtain ⟨⟨n, info, hslot, hi⟩, -⟩ := hc
    obtain ⟨ho, hentries⟩ := Model.entriesAt_of_slot hslot
    exact insertEntry_eq ho (hentries ▸ hi)
  case entryDeleted place old =>
    obtain ⟨ho, he⟩ := Model.entriesAt_of_entryAt hc
    rw [perform, bind_of_ok (removeEntry_eq ho he)]
    rfl
  case entryChanged place new old =>
    obtain ⟨ho, he⟩ := Model.entriesAt_of_entryAt hc.1
    exact replaceEntry_eq ho (List.getElem?_eq_some_iff.1 he).1
  case entryMoved shift moved =>
    obtain ⟨⟨n, info, hslot, hland⟩, he, -⟩ := hc
    obtain ⟨ho, hentries⟩ := Model.entriesAt_of_slot hslot
    obtain ⟨hs, he⟩ := Model.entriesAt_of_entryAt he
    exact moveEntry_eq hs ho he (hentries ▸ hland)
  case entryMovedAndReplaced shift moved old =>
    obtain ⟨he, hold, -, -⟩ := hc
    obtain ⟨hs, he⟩ := Model.entriesAt_of_entryAt he
    obtain ⟨htarget, hold⟩ := Model.entriesAt_of_entryAt hold
    exact moveAndReplaceEntry_eq hs htarget he (List.getElem?_eq_some_iff.1 hold).1
  case resolveInfoAdded place new target | resolveInfoChanged place new target old
    | resolveInfoDeleted place target old | targetDeleted place info old =>
    obtain ⟨e, he⟩ := hc
    obtain ⟨ho, he⟩ := Model.entriesAt_of_entryAt he
    exact editEntry_eq ho he
  case targetAdded place new info | targetChanged place new info old =>
    obtain ⟨⟨e, he⟩, -⟩ := hc
    obtain ⟨ho, he⟩ := Model.entriesAt_of_entryAt he
    exact editEntry_eq ho he

/-- A change that fits is performed to its end. -/
theorem perform_eq (ht : f.nodes.Treelike) (hc : c.Fits f.model)
    (htree : ∀ tree ∈ c.incoming, tree.IsTree) : perform c f = .ok () (f.changed c) := by
  cases hr : c.reshaping? with
  | none => exact perform_of_content hc hr
  | some r =>
    rw [Change.perform_of_reshaping hr, Reshaping.action_eq ht (Change.fits_of_reshaping ht hc hr)
      (Change.incoming_of_reshaping hr ▸ htree), changed, Change.outcome_of_reshaping hr,
      Change.roots_of_reshaping hr]

end Forest.Action

end DeltaForest
