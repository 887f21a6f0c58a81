import DeltaForest.Proofs.Pruned
import DeltaForest.Proofs.Typed

/-!
# Nodes that conform to their types

A node conforms if all that is stored on it is what its classifier provides for (`Node.Conforms`):
each property, containment and reference is a feature that the classifier declares, each value is
one of the type of its property, a feature for one child or entry has no more than one, and every
entry says something. Whatever comes about consists of such nodes (`Site.Reachable.conforms`).

The checks that make sure of it are spread over the planners. A subtree is checked as a whole when
it comes; a place that something is put into is checked for being a slot of its node, and for room
if the list is new to what is put there. Where a node or entry takes the place of another one, or
moves within its list, there is no such check, but the list gets no longer. Another classifier has
to declare what the node has something for; lists that hold nothing are dropped with the change.
-/

namespace DeltaForest

/-- An entry says something if it has one of its halves. -/
theorem Entry.isEmpty_eq_false {e : Entry} :
    e.isEmpty = false ↔ e.target.isSome ∨ e.resolveInfo.isSome := by
  rw [isEmpty]
  cases e.target <;> cases e.resolveInfo <;> simp

/-- A classifier declares a feature of a kind, and so many things may be in it. -/
def TypeRegistry.Admits (types : TypeRegistry) (kind : ElementKind) (classifier feature : Handle)
    (count : Nat) : Prop :=
  ∃ info, types.featureAt kind feature = .ok info ∧ types.declares classifier feature = true ∧
    (info.isMultiple = false → count ≤ 1)

/-- A node on which everything is as its classifier has it. -/
structure Node.Conforms (types : TypeRegistry) (n : Node) : Prop where
  classifier : ∃ info, types.classifierAt n.classifier = .ok info
  properties : ∀ p v, n.properties[p]? = some v → ∃ info type,
    types.featureAt .property p = .ok info ∧ types.declares n.classifier p = true ∧
      info.dataType? = some type ∧ v.conforms type = true
  containments : ∀ c ids, n.containments[c]? = some ids →
    types.Admits .containment n.classifier c ids.length
  references : ∀ r es, n.references[r]? = some es →
    types.Admits .reference n.classifier r es.length ∧
      ∀ e ∈ es, e.target.isSome ∨ e.resolveInfo.isSome

variable {types : TypeRegistry}

namespace TypeRegistry

variable {kind : ElementKind} {classifier feature : Handle} {count count' : Nat}

theorem Admits.mono (h : types.Admits kind classifier feature count) (hle : count' ≤ count) :
    types.Admits kind classifier feature count' := by
  obtain ⟨info, hinfo, hdeclares, hcount⟩ := h
  exact ⟨info, hinfo, hdeclares, fun hone => Nat.le_trans hle (hcount hone)⟩

/-- A feature is declared under the handle that it is found by. -/
theorem Lawful.admits (hl : types.Lawful) {info : FeatureInfo}
    (hinfo : types.featureAt kind feature = .ok info)
    (hdeclares : types.declares classifier info.handle = true)
    (hcount : info.isMultiple = false → count ≤ 1) :
    types.Admits kind classifier feature count := by
  have hhandle : info.handle = feature := (hl.feature_pointer hinfo).2.2
  exact ⟨info, hinfo, hhandle ▸ hdeclares, hcount⟩

end TypeRegistry

/-! ## Single nodes -/

namespace Node

variable {n : Node}

/-- A pruned node conforms if what it has something for is as its classifier has it. -/
theorem conforms_prune (hclassifier : ∃ info, types.classifierAt n.classifier = .ok info)
    (hproperties : ∀ p v, n.properties[p]? = some v → ∃ info type,
      types.featureAt .property p = .ok info ∧ types.declares n.classifier p = true ∧
        info.dataType? = some type ∧ v.conforms type = true)
    (hchildren : ∀ c, n.children c ≠ [] →
      types.Admits .containment n.classifier c (n.children c).length)
    (hentries : ∀ r, n.entries r ≠ [] →
      types.Admits .reference n.classifier r (n.entries r).length ∧
        ∀ e ∈ n.entries r, e.target.isSome ∨ e.resolveInfo.isSome) :
    n.prune.Conforms types where
  classifier := hclassifier
  properties := hproperties
  containments c ids h := by
    rw [lookup_containments_prune] at h
    split at h
    · cases h
    · next hne =>
      obtain rfl := Option.some.inj h
      exact hchildren c (by simpa using hne)
  references r es h := by
    rw [lookup_references_prune] at h
    split at h
    · cases h
    · next hne =>
      obtain rfl := Option.some.inj h
      exact hentries r (by simpa using hne)

namespace Conforms

variable (h : n.Conforms types)

include h

theorem children (c : Handle) (hne : n.children c ≠ []) :
    types.Admits .containment n.classifier c (n.children c).length := by
  rw [Node.children] at hne ⊢
  cases hc : n.containments[c]? with
  | none => simp [hc] at hne
  | some ids => exact h.containments c ids hc

theorem entries (r : Handle) (hne : n.entries r ≠ []) :
    types.Admits .reference n.classifier r (n.entries r).length ∧
      ∀ e ∈ n.entries r, e.target.isSome ∨ e.resolveInfo.isSome := by
  rw [Node.entries] at hne ⊢
  cases hr : n.references[r]? with
  | none => simp [hr] at hne
  | some es => exact h.references r es hr

theorem prune : n.prune.Conforms types :=
  conforms_prune h.classifier h.properties h.children h.entries

/-- Other entries in a reference that admits them. -/
theorem withEntries {r : Handle} {es : List Entry}
    (hes : es ≠ [] → types.Admits .reference n.classifier r es.length ∧
      ∀ e ∈ es, e.target.isSome ∨ e.resolveInfo.isSome) :
    (n.withEntries r es).prune.Conforms types := by
  refine conforms_prune h.classifier h.properties h.children fun r' hne => ?_
  rw [entries_withEntries] at hne ⊢
  split
  · next heq =>
    rw [if_pos heq] at hne
    exact heq ▸ hes hne
  · next hother =>
    rw [if_neg hother] at hne
    exact h.entries r' hne

end Conforms

end Node

/-- Conforming nodes: a containment with children in it admits them. -/
def NodeRule.conforming (types : TypeRegistry) : NodeRule where
  Allows n := n.Conforms types
  Seats classifier s ids := ∀ c, s = .containment c → 0 < ids.length →
    types.Admits .containment classifier c ids.length
  linked h _ := ⟨h.classifier, h.properties, h.containments, h.references⟩
  seated h s := by
    rintro c rfl hpos
    exact h.children c (List.length_pos_iff.1 hpos)
  withSeated {n s ids} h hs := by
    cases s with
    | annotations => exact Node.conforms_prune h.classifier h.properties h.children h.entries
    | containment c =>
      refine Node.conforms_prune h.classifier h.properties (fun c' hne => ?_) h.entries
      rw [Node.withSeated, Node.children_withChildren] at hne ⊢
      split
      · next heq =>
        rw [if_pos heq] at hne
        exact heq ▸ hs c rfl (List.length_pos_iff.2 hne)
      · next hother =>
        rw [if_neg hother] at hne
        exact h.children c' hne
  sublist h hsub c hs hpos :=
    (h c hs (Nat.lt_of_lt_of_le hpos hsub.length_le)).mono hsub.length_le

/-! ## Tables -/

namespace NodeTable

variable {t : NodeTable} {p source target : Place Handle} {e : Entry} {es : List Entry}

/-- Some entries may be in the reference that a place is in. -/
def TakesEntries (types : TypeRegistry) (t : NodeTable) (p : Place Handle) (es : List Entry) :
    Prop :=
  ∀ n, t[p.owner]? = some n → es ≠ [] → types.Admits .reference n.classifier p.feature es.length ∧
    ∀ e ∈ es, e.target.isSome ∨ e.resolveInfo.isSome

namespace Obeys

variable (h : t.Obeys (.conforming types))

include h

theorem takesEntries (p : Place Handle) : t.TakesEntries types p (t.entriesAt p) := by
  intro n hn hne
  rw [entriesAt_eq hn] at hne ⊢
  exact (h _ n hn).entries _ hne

theorem withEntries (hes : t.TakesEntries types p es) :
    (t.withEntries p es).Obeys (.conforming types) :=
  h.edited fun n hn hconforms => hconforms.withEntries (hes n hn)

/-- An entry that is there says something. -/
theorem entry (ho : p.owner ∈ t) (he : e ∈ t.entriesAt p) :
    e.target.isSome ∨ e.resolveInfo.isSome := by
  obtain ⟨n, hn⟩ := mem_iff_exists.1 ho
  exact (h.takesEntries p n hn (List.ne_nil_of_mem he)).2 e he

theorem entryRemoved : (t.entryRemoved p).Obeys (.conforming types) := by
  refine h.withEntries fun n hn hne => ?_
  have hsub := List.eraseIdx_sublist (t.entriesAt p) p.index
  have hne' : t.entriesAt p ≠ [] := fun hnil => hne (List.sublist_nil.1 (hnil ▸ hsub))
  obtain ⟨hadmits, hall⟩ := h.takesEntries p n hn hne'
  exact ⟨hadmits.mono hsub.length_le, fun e he => hall e (hsub.subset he)⟩

/-- An entry that takes the place of another one needs no room. -/
theorem entryReplaced (he : e.target.isSome ∨ e.resolveInfo.isSome) :
    (t.entryReplaced p e).Obeys (.conforming types) := by
  refine h.withEntries fun n hn hne => ?_
  rw [List.length_set]
  have hne' : t.entriesAt p ≠ [] := fun hnil => hne (by rw [hnil]; rfl)
  obtain ⟨hadmits, hall⟩ := h.takesEntries p n hn hne'
  refine ⟨hadmits, fun e' he' => ?_⟩
  rcases List.mem_or_eq_of_mem_set he' with he' | rfl
  · exact hall e' he'
  · exact he

/-- An entry that is edited needs no room, but it has to say something afterwards. -/
theorem entryEdited {step : Entry → Entry}
    (hstep : ∀ e, (t.entriesAt p)[p.index]? = some e →
      (step e).target.isSome ∨ (step e).resolveInfo.isSome) :
    (t.entryEdited p step).Obeys (.conforming types) := by
  rw [NodeTable.entryEdited]
  split
  · next e he => exact h.entryReplaced (hstep e he)
  · exact h

/-- A new entry needs room. -/
theorem entryInserted (he : e.target.isSome ∨ e.resolveInfo.isSome)
    (hroom : ∀ n, t[p.owner]? = some n → types.Admits .reference n.classifier p.feature
      ((t.entriesAt p).length + 1)) : (t.entryInserted p e).Obeys (.conforming types) := by
  refine h.withEntries fun n hn _ => ⟨(hroom n hn).mono List.length_insertIdx_le_succ, ?_⟩
  intro e' he'
  rcases List.eq_or_mem_of_mem_insertIdx he' with rfl | he'
  · exact he
  · exact (h.takesEntries p n hn (List.ne_nil_of_mem he')).2 e' he'

/-- An entry that is moved needs room only in a list that is new to it. -/
theorem entryMoved (ho : source.owner ∈ t) (he : (t.entriesAt source)[source.index]? = some e)
    (hroom : ¬(source.owner = target.owner ∧ source.feature = target.feature) →
      ∀ n, t[target.owner]? = some n → types.Admits .reference n.classifier target.feature
        ((t.entriesAt target).length + 1)) :
    ((t.entryRemoved source).entryInserted target e).Obeys (.conforming types) := by
  have hmem := List.mem_of_getElem? he
  refine h.entryRemoved.entryInserted (h.entry ho hmem) fun n hn => ?_
  -- The node at the target is the one that was there, but for its entries.
  rw [NodeTable.entryRemoved, NodeTable.withEntries, lookup_edited] at hn
  obtain ⟨n', hn', rfl⟩ := Option.map_eq_some_iff.1 hn
  have hclassifier : (if source.owner = target.owner then
      (n'.withEntries source.feature ((t.entriesAt source).eraseIdx source.index)).prune
        else n').classifier = n'.classifier := by
    split <;> rfl
  rw [hclassifier, NodeTable.entryRemoved, entriesAt_withEntries ho]
  split
  · next hsame =>
    have hentries : t.entriesAt target = t.entriesAt source := by
      rw [entriesAt, entriesAt, hsame.1, hsame.2]
    have hi := (List.getElem?_eq_some_iff.1 he).1
    have hadmits := (h.takesEntries target n' hn' (hentries ▸ List.ne_nil_of_mem hmem)).1
    rw [hentries] at hadmits
    rwa [List.length_eraseIdx_of_lt hi, Nat.sub_add_cancel (Nat.one_le_of_lt hi)]
  · next hother => exact hroom hother n' hn'

end Obeys

/-- Whether nodes may be in a seat depends on their number only. -/
theorem Takes.of_length {q : Place Seat} {ids ids' : List NodeId}
    (h : t.Takes (.conforming types) q ids) (hle : ids'.length ≤ ids.length) :
    t.Takes (.conforming types) q ids' :=
  fun n hn c hs hpos => (h n hn c hs (Nat.lt_of_lt_of_le hpos hle)).mono hle

end NodeTable

/-! ## Changes -/

namespace Model

variable {m : Model} {n : Node} {info : FeatureInfo} {kind : ElementKind} {id : NodeId}
variable {feature : Handle} {count : Nat} {tree : Subtree}

/-- A slot with room for one more. -/
theorem admits_of_room (hl : m.types.Lawful) (hslot : m.slot kind id feature = .ok (n, info))
    (hroom : checkRoom n info count = .ok ()) :
    m.types.Admits kind n.classifier feature (count + 1) := by
  obtain ⟨hinfo, -, hdeclares⟩ := slot_eq_ok.1 hslot
  exact hl.admits hinfo hdeclares fun hone => Nat.le_of_eq (by rw [checkRoom_eq_ok.1 hroom hone])

/-- What may enter conforms. -/
theorem conforms_of_checkNew (hl : m.types.Lawful) (h : m.checkNew tree = .ok ()) :
    ∀ n ∈ tree.nodes, n.Conforms m.types := by
  intro n hn
  obtain ⟨hclassifier, hproperties, hcontainments, hreferences, -⟩ :=
    checkNewNode_eq_ok.1 ((checkNew_eq_ok.1 h).2 n hn)
  have hlist {kind : ElementKind} {feature : Handle} {count : Nat}
      (hcheck : m.checkNewList kind n feature count = .ok ()) :
      m.types.Admits kind n.classifier feature count := by
    obtain ⟨info, hinfo, hdeclares, hcount⟩ := checkNewList_eq_ok.1 hcheck
    exact hl.admits hinfo hdeclares hcount
  refine ⟨hclassifier, fun p v hv => ?_, fun c ids hc => hlist (hcontainments c ids hc),
    fun r es hr => ⟨hlist (hreferences r es hr).1, fun e he => ?_⟩⟩
  · obtain ⟨info, hinfo, hdeclares, hvalue⟩ := checkNewProperty_eq_ok.1 (hproperties p v hv)
    obtain ⟨type, htype, hconforms⟩ := checkValue_eq_ok.1 hvalue
    have hhandle : info.handle = p := (hl.feature_pointer hinfo).2.2
    exact ⟨info, type, hinfo, hhandle ▸ hdeclares, htype, hconforms⟩
  · exact Entry.isEmpty_eq_false.1 (checkNewEntry_eq_ok.1 ((hreferences r es hr).2 e he)).1

/-- The features that a node has something for. -/
theorem mem_setFeatures : feature ∈ setFeatures n ↔
    (n.property? feature).isSome ∨ n.children feature ≠ [] ∨ n.entries feature ≠ [] := by
  have hlist {α : Type} (l : FeatureMap (List α)) :
      feature ∈ (l.toList.filter (!·.2.isEmpty)).map (·.1) ↔ l[feature]?.getD [] ≠ [] := by
    simp only [List.mem_map, List.mem_filter, Prod.exists,
      Std.ExtTreeMap.mem_toList_iff_getElem?_eq_some]
    cases h : l[feature]? <;> simp [h]
  rw [setFeatures, List.mem_append, List.mem_append, hlist, hlist, or_assoc]
  refine or_congr ?_ Iff.rfl
  rw [Std.ExtTreeMap.mem_keys, Node.property?, Std.ExtTreeMap.isSome_getElem?_iff_mem]

/-- A reference with room for one more admits one more than there are. -/
theorem admits_entries (hl : m.types.Lawful) {place : Place Handle} {n' : Node}
    (hslot : m.slot .reference place.owner place.feature = .ok (n, info))
    (hroom : checkRoom n info (n.entries place.feature).length = .ok ())
    (hn' : m.nodes[place.owner]? = some n') : m.types.Admits .reference n'.classifier
      place.feature ((m.nodes.entriesAt place).length + 1) := by
  obtain rfl := Option.some.inj ((slot_eq_ok.1 hslot).2.1.symm.trans hn')
  rw [(entriesAt_of_slot hslot).2]
  exact admits_of_room hl hslot hroom

/-- A containment with room for one more takes one more than there are. -/
theorem takes_of_room (hl : m.types.Lawful) {place : Place Handle} {ids : List NodeId}
    (hperm : ∃ n info, m.slot .containment place.owner place.feature = .ok (n, info) ∧
      checkRoom n info (n.children place.feature).length = .ok ())
    (hle : ids.length ≤ (m.nodes.seated place.owner (.containment place.feature)).length + 1) :
    m.nodes.Takes (.conforming m.types) place.seat ids := by
  obtain ⟨n, info, hslot, hroom⟩ := hperm
  have hn := (slot_eq_ok.1 hslot).2.1
  rw [NodeTable.seated_eq hn] at hle
  rintro n' hn' c ⟨⟩ -
  obtain rfl := Option.some.inj (hn.symm.trans hn')
  exact (admits_of_room hl hslot hroom).mono hle

/-- Among annotations there is always room. -/
theorem takes_annotations {spot : AnnotationPlace} {ids : List NodeId} :
    m.nodes.Takes (.conforming m.types) spot.seat ids := by
  rintro n - c ⟨⟩

end Model

namespace Node.Conforms

variable {n : Node} (h : n.Conforms types)

include h

/-- What a node has something for is declared by its new classifier as well. -/
theorem reclassified {classifier : Handle}
    (hclassifier : ∃ info, types.classifierAt classifier = .ok info)
    (hdeclares : ∀ f ∈ Model.setFeatures n, types.declares classifier f = true) :
    { n with classifier := classifier }.prune.Conforms types := by
  have hadmits {kind : ElementKind} {feature : Handle} {count : Nat}
      (hset : feature ∈ Model.setFeatures n)
      (hold : types.Admits kind n.classifier feature count) :
      types.Admits kind classifier feature count := by
    obtain ⟨info, hinfo, -, hcount⟩ := hold
    exact ⟨info, hinfo, hdeclares feature hset, hcount⟩
  refine conforms_prune hclassifier (fun p v hv => ?_) (fun f hne => ?_) fun f hne => ?_
  · obtain ⟨info, type, hinfo, -, htype⟩ := h.properties p v hv
    have hset : (n.property? p).isSome := Option.isSome_iff_exists.2 ⟨v, hv⟩
    exact ⟨info, type, hinfo, hdeclares p (Model.mem_setFeatures.2 (.inl hset)), htype⟩
  · exact hadmits (Model.mem_setFeatures.2 (.inr (.inl hne))) (h.children f hne)
  · obtain ⟨hold, hall⟩ := h.entries f hne
    exact ⟨hadmits (Model.mem_setFeatures.2 (.inr (.inr hne))) hold, hall⟩

/-- A value of the type of a declared property. -/
theorem withProperty {property : Handle} {info : FeatureInfo} {type : DataType} {v : Value}
    (hinfo : types.featureAt .property property = .ok info)
    (hdeclares : types.declares n.classifier property = true)
    (htype : info.dataType? = some type ∧ v.conforms type = true) :
    { n with properties := n.properties.insert property v }.prune.Conforms types := by
  refine conforms_prune h.classifier (fun p w hw => ?_) h.children h.entries
  rw [lookup_insert] at hw
  split at hw
  · next heq =>
    obtain rfl := Option.some.inj hw
    exact heq ▸ ⟨info, type, hinfo, hdeclares, htype⟩
  · exact h.properties p w hw

/-- Without a value there is one thing less to be declared. -/
theorem withoutProperty {property : Handle} :
    { n with properties := n.properties.erase property }.prune.Conforms types := by
  refine conforms_prune h.classifier (fun p w hw => ?_) h.children h.entries
  rw [lookup_erase] at hw
  split at hw
  · cases hw
  · exact h.properties p w hw

end Node.Conforms

namespace Change

variable {m : Model} {c : Change} {r : Reshaping}

/-- Where a child is moved to there is room for it: it has left the list, or the list is checked. -/
theorem takes_childMoved (hl : m.types.Lawful) (h : m.nodes.Obeys (.conforming m.types))
    {shift : Shift Handle} {moved : NodeId} (hc : (childMoved shift moved).Fits m)
    (hp : (childMoved shift moved).Permitted m) :
    m.nodes.Takes (.conforming m.types) shift.target.seat
      (((m.nodes.removed shift.source.seat).seated shift.target.seat.owner
        shift.target.seat.feature).insertIdx shift.target.seat.index moved) := by
  obtain ⟨n, info, hslot, hpermitted⟩ := hp
  have hs := Model.at?_of_locateChild hc.2.1
  rw [NodeTable.removed, NodeTable.seated_withSeated (NodeTable.mem_of_at? hs)]
  split
  · -- The list has lost the child before it gets it back.
    next hsame =>
    have hi := (List.getElem?_eq_some_iff.1 hs).1
    refine (h.takes_seated shift.target.seat).of_length ?_
    rw [← hsame.1, ← hsame.2]
    refine Nat.le_trans List.length_insertIdx_le_succ ?_
    rw [List.length_eraseIdx_of_lt hi]
    exact Nat.le_of_eq (Nat.sub_add_cancel (Nat.one_le_of_lt hi))
  · next hother =>
    refine Model.takes_of_room hl ⟨n, info, hslot, hpermitted fun hsame => hother ?_⟩
      List.length_insertIdx_le_succ
    exact ⟨hsame.1, congrArg Seat.containment hsame.2⟩

/-- What a change that fits puts into seats may be there. -/
theorem suits_conforming (hl : m.types.Lawful) (h : m.nodes.Obeys (.conforming m.types))
    (hc : c.Fits m) (hp : c.Permitted m) (hr : c.reshaping? = some r) :
    r.Suits (.conforming m.types) m.nodes := by
  cases c <;> cases hr
  case childAdded place new => exact Model.takes_of_room hl hp List.length_insertIdx_le_succ
  case childReplaced place new old =>
    exact (h.takes_seated place.seat).of_length (Nat.le_of_eq (List.length_set ..))
  case childMovedAndReplaced shift moved old =>
    exact (h.takes_seated shift.target.seat).of_length (Nat.le_of_eq (List.length_set ..))
  case childMoved shift moved => exact takes_childMoved hl h hc hp
  case annotationAdded | annotationReplaced | annotationMoved | annotationMovedAndReplaced =>
    exact Model.takes_annotations
  all_goals trivial

/-- A node gets another classifier if that declares what the node has something for. -/
theorem conforms_of_node (h : m.nodes.Obeys (.conforming m.types)) (hc : c.Fits m)
    (hp : c.Permitted m) (hs : c.subject = .node) (hr : c.reshaping? = none) :
    (c.outcome m.nodes).Obeys (.conforming m.types) := by
  cases c <;> cases hs <;> cases hr
  case classifierChanged id new old =>
    obtain ⟨n, hn, hdeclares⟩ := hp
    refine h.edited fun n' hn' hconforms => ?_
    obtain rfl := Option.some.inj (hn.symm.trans hn')
    exact hconforms.reclassified hc.1 hdeclares

/-- A value that is set is one of the type of its property. -/
theorem conforms_of_property (hl : m.types.Lawful) (h : m.nodes.Obeys (.conforming m.types))
    (hc : c.Fits m) (hs : c.subject = .property) :
    (c.outcome m.nodes).Obeys (.conforming m.types) := by
  cases c <;> cases hs
  case propertyAdded id property new | propertyChanged id property new old =>
    obtain ⟨n, info, hslot, hvalue⟩ := hc
    obtain ⟨hinfo, hn, hdeclares⟩ := Model.slot_eq_ok.1 hslot
    obtain ⟨type, htype⟩ := checkValue_eq_ok.1 hvalue
    have hhandle : info.handle = property := (hl.feature_pointer hinfo).2.2
    refine h.edited fun n' hn' hconforms => ?_
    obtain rfl := Option.some.inj (hn.symm.trans hn')
    exact hconforms.withProperty hinfo (hhandle ▸ hdeclares) htype
  case propertyDeleted id property old =>
    exact h.edited fun n _ hconforms => hconforms.withoutProperty

/-- An entry that comes says something and finds room. -/
theorem conforms_of_entry (hl : m.types.Lawful) (h : m.nodes.Obeys (.conforming m.types))
    (hc : c.Fits m) (hp : c.Permitted m) (hs : c.subject = .entry) :
    (c.outcome m.nodes).Obeys (.conforming m.types) := by
  cases c <;> cases hs
  case entryAdded place new =>
    obtain ⟨n, info, hslot, hpermitted⟩ := hp
    exact h.entryInserted (Entry.isEmpty_eq_false.1 (Model.checkEntry_eq_ok.1 hc.2).1)
      fun n' => Model.admits_entries hl hslot hpermitted
  case entryDeleted => exact h.entryRemoved
  case entryChanged place new old =>
    exact h.entryReplaced (Entry.isEmpty_eq_false.1 (Model.checkEntry_eq_ok.1 hc.2).1)
  case entryMoved shift moved =>
    obtain ⟨n, info, hslot, hpermitted⟩ := hp
    obtain ⟨ho, he⟩ := Model.entriesAt_of_entryAt hc.2.1
    exact h.entryMoved ho he fun hother n' => Model.admits_entries hl hslot (hpermitted hother)
  case entryMovedAndReplaced shift moved old =>
    have hread : (m.nodes.edited shift.source.owner fun n => n).Obeys (.conforming m.types) :=
      h.edited fun n _ hn => hn.prune
    obtain ⟨ho, he⟩ := Model.entriesAt_of_entryAt hc.1
    exact (hread.entryReplaced (h.entry ho (List.mem_of_getElem? he))).entryRemoved

/-- An entry that loses a half has the other one, and one that gets a half has that. -/
theorem conforms_of_half (h : m.nodes.Obeys (.conforming m.types)) (hp : c.Permitted m)
    (hs : c.subject = .half) : (c.outcome m.nodes).Obeys (.conforming m.types) := by
  cases c <;> cases hs
  case resolveInfoAdded | resolveInfoChanged => exact h.entryEdited fun e he => .inr rfl
  case targetAdded | targetChanged => exact h.entryEdited fun e he => .inl rfl
  case resolveInfoDeleted place target old =>
    obtain ⟨e, he, htarget⟩ := hp
    refine h.entryEdited fun e' he' => .inl ?_
    obtain rfl := Option.some.inj ((Model.entriesAt_of_entryAt he).2.symm.trans he')
    exact htarget
  case targetDeleted place info old =>
    obtain ⟨e, he, hinfo⟩ := hp
    refine h.entryEdited fun e' he' => .inr ?_
    obtain rfl := Option.some.inj ((Model.entriesAt_of_entryAt he).2.symm.trans he')
    exact hinfo

/-- A change that fits and does not reshape a forest keeps nodes conforming. -/
theorem conforms_of_content (hl : m.types.Lawful) (h : m.nodes.Obeys (.conforming m.types))
    (hc : c.Fits m) (hp : c.Permitted m) (hr : c.reshaping? = none) :
    (c.outcome m.nodes).Obeys (.conforming m.types) := by
  cases hs : c.subject with
  | node => exact conforms_of_node h hc hp hs hr
  | property => exact conforms_of_property hl h hc hs
  | child | annotation =>
    -- A child or an annotation that comes, goes or is moved always reshapes.
    cases c <;> cases hs <;> cases hr
  | entry => exact conforms_of_entry hl h hc hp hs
  | half => exact conforms_of_half h hp hs

/-- A change that fits and is permitted keeps nodes conforming. -/
theorem conforms_outcome (hl : m.types.Lawful) (ht : m.nodes.Treelike)
    (h : m.nodes.Obeys (.conforming m.types)) (hc : c.Fits m) (hp : c.Permitted m)
    (htree : ∀ tree ∈ c.incoming, tree.IsTree) :
    (c.outcome m.nodes).Obeys (.conforming m.types) := by
  cases hr : c.reshaping? with
  | none => exact conforms_of_content hl h hc hp hr
  | some r =>
    exact obeys_of_reshaping ht hc hr h (suits_conforming hl h hc hp hr) htree fun tree hin =>
      Model.conforms_of_checkNew hl (checkNew_of_fits hc tree hin)

end Change

/-- In whatever comes about all nodes conform to their types. -/
theorem Site.Reachable.conforms {languages : List Language}
    (htypes : TypeRegistry.registerAll .empty languages = .ok types) {site : Site}
    {past : List Checkpoint} {made : List Change} (h : Site.Reachable types site past made)
    (k : NodeId) (n : Node) (hn : site.forest.nodes[k]? = some n) : n.Conforms types := by
  have hl := TypeRegistry.lawful_of_registerAll htypes
  have hobeys := (h.invariant (P := NodeTable.Obeys (.conforming types)) (Q := fun _ => True)
    (NodeTable.obeys_empty _)
    (fun f c hf hwell hnodes _ hc htree => by
      subst hf
      exact Change.conforms_outcome (m := f.model) hl hwell.treelike hnodes
        (Model.fits_of_replan hc) (Model.permitted_of_replan hc) htree)
    fun _ _ => trivial).1
  exact hobeys k n hn

namespace Examples

/-- The library has one book, and conforms. -/
theorem conforms_stocked : Site.Reachable libraryTypes stocked [] [opening, shelving] ∧
    stocked.forest.nodes.seated ⟨"city"⟩ (.containment ⟨2⟩) = [⟨"novel"⟩] ∧
    ∃ n, stocked.forest.nodes[(⟨"city"⟩ : NodeId)]? = some n ∧ n.Conforms libraryTypes :=
  ⟨reachable_stocked, by decide +kernel, _, rfl,
    Site.Reachable.conforms registerAll_library reachable_stocked ⟨"city"⟩ _ rfl⟩

end Examples

end DeltaForest
