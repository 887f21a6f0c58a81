import DeltaForest.Proofs.Travel
import Mathlib.Data.List.Pairwise

/-!
# What a chunk lists

An item of a chunk lists what a node has, feature by feature, and a feature may be listed more than
once. Listings are read in their order, and one with something in it takes the place of all that
stand before it for the same feature (`Chunk.Listing.exists_stored`). So the node that is read has
for every feature what the last listing says of those that say anything (`Chunk.Item.ReadAs`).

Nothing of a chunk is lost if whatever is listed is part of what that last listing says, and only
then (`Chunk.keeps_of_toSubtree`): of two lists of children for one containment the first is lost.
-/

namespace DeltaForest

namespace Chunk

/-! ## Listings -/

/-- How a part of a node is listed: which kind of feature a listing is for and which one it names,
    what it says of that feature, if anything, and what it has to be like to be read at all. -/
structure Listing (α β : Type) where
  part : Node.Part α
  kind : ElementKind
  pointer : β → Pointer
  content? : FeatureInfo → β → Option α
  Sound : FeatureInfo → β → Prop

namespace Listing

/-- A property without a value says nothing, and the text of a value has to be one of the type. -/
def properties : Listing Value Property where
  part := .properties
  kind := .property
  pointer p := p.pointer
  content? info p := do Value.ofText? (← info.dataType?) (← p.value)
  Sound info p := ∀ s, p.value = some s →
    ∃ type v, info.dataType? = some type ∧ Value.ofText? type s = some v

/-- A list that is empty says nothing. -/
def ofLists {β γ : Type} (part : Node.Part (List γ)) (kind : ElementKind) (pointer : β → Pointer)
    (list : β → List γ) (Sound : List γ → Prop) : Listing (List γ) β where
  part := part
  kind := kind
  pointer := pointer
  content? _ b := if (list b).isEmpty then none else some (list b)
  Sound _ b := Sound (list b)

theorem content?_ofLists {β γ : Type} {part : Node.Part (List γ)} {kind : ElementKind}
    {pointer : β → Pointer} {list : β → List γ} {Sound : List γ → Prop} {info : FeatureInfo}
    {b : β} : (ofLists part kind pointer list Sound).content? info b =
      if (list b).isEmpty then none else some (list b) :=
  rfl

def containments : Listing (List NodeId) Containment :=
  ofLists .containments .containment (·.pointer) (·.children) fun _ => True

/-- Every entry that is listed has to say something. -/
def references : Listing (List Entry) Reference :=
  ofLists .references .reference (·.pointer) (·.entries) fun es => ∀ e ∈ es, e.isEmpty = false

variable {α β : Type} (L : Listing α β) (types : TypeRegistry)

/-- What a listing says of a feature. -/
def tells? (f : Handle) (b : β) : Option α :=
  match types.feature L.kind (L.pointer b) with
  | .ok info => if info.handle = f then L.content? info b else none
  | .error _ => none

/-- What listings say of a feature: of those that say anything the last one counts. -/
def last? (l : List β) (f : Handle) : Option α :=
  l.reverse.findSome? (L.tells? types f)

/-- A listing that a node of a classifier can have. -/
def Readable (classifier : Handle) (b : β) : Prop :=
  ∃ info, types.feature L.kind (L.pointer b) = .ok info ∧
    types.declares classifier info.handle = true ∧ L.Sound info b

/-- Whatever is listed for a feature is part of what counts. -/
def Undisputed (Part : α → α → Prop) (l : List β) : Prop :=
  ∀ b ∈ l, ∀ f a, L.tells? types f b = some a → ∀ a', L.last? types l f = some a' → Part a a'

/-- No two listings say something of one feature. -/
def Once (l : List β) : Prop :=
  l.Pairwise fun b b' => ∀ f, L.tells? types f b = none ∨ L.tells? types f b' = none

/-- A step of reading: the feature is one of the classifier, and what the listing says of it is put
    in the place of what there was. -/
def Reads (step : Node → β → Except Fault Node) : Prop :=
  ∀ n b n', step n b = .ok n' → ∃ info, types.feature L.kind (L.pointer b) = .ok info ∧
    types.declares n.classifier info.handle = true ∧ L.Sound info b ∧
    n' = match L.content? info b with
      | some a => L.part.put n ((L.part.get n).insert info.handle a)
      | none => n

variable {L types} {b : β} {l : List β} {c f : Handle} {a : α} {n n' : Node}

theorem tells?_eq_some : L.tells? types f b = some a ↔
    ∃ info, types.feature L.kind (L.pointer b) = .ok info ∧ info.handle = f ∧
      L.content? info b = some a := by
  rw [tells?]
  cases types.feature L.kind (L.pointer b) <;> simp

theorem last?_cons : L.last? types (b :: l) f = (L.last? types l f).or (L.tells? types f b) := by
  rw [last?, List.reverse_cons, List.findSome?_append, List.findSome?_singleton]
  rfl

/-- What counts has been listed. -/
theorem exists_of_last? (h : L.last? types l f = some a) :
    ∃ b ∈ l, L.tells? types f b = some a := by
  obtain ⟨b, hb, htells⟩ := List.exists_of_findSome?_eq_some h
  exact ⟨b, List.mem_reverse.1 hb, htells⟩

/-- What counts has been listed in a way that can be read. -/
theorem exists_readable_of_last? (hl : ∀ b ∈ l, L.Readable types c b)
    (h : L.last? types l f = some a) : ∃ b info, types.feature L.kind (L.pointer b) = .ok info ∧
      info.handle = f ∧ types.declares c info.handle = true ∧ L.Sound info b ∧
      L.content? info b = some a := by
  obtain ⟨b, hb, htells⟩ := exists_of_last? h
  obtain ⟨info, hinfo, hhandle, hcontent⟩ := tells?_eq_some.1 htells
  obtain ⟨info', hinfo', hdeclares, hsound⟩ := hl b hb
  obtain rfl : info = info' := Except.ok.inj (hinfo.symm.trans hinfo')
  exact ⟨b, info, hinfo, hhandle, hdeclares, hsound, hcontent⟩

/-- Where something is listed, something counts. -/
theorem exists_last? (hb : b ∈ l) (htells : L.tells? types f b = some a) :
    ∃ a', L.last? types l f = some a' := by
  rw [← Option.isSome_iff_exists, last?, List.findSome?_isSome_iff]
  exact ⟨b, List.mem_reverse.2 hb, htells ▸ rfl⟩

/-- A feature that is listed once only has what is listed. -/
theorem Once.undisputed {Part : α → α → Prop} (hrefl : ∀ a, Part a a) (h : L.Once types l) :
    L.Undisputed types Part l := by
  intro b hb f a htells a' hlast
  obtain ⟨b', hb', htells'⟩ := exists_of_last? hlast
  by_cases heq : b = b'
  · obtain rfl : a = a' := Option.some.inj (htells.symm.trans (heq ▸ htells'))
    exact hrefl a
  · have : Std.Symm fun b b' => ∀ f, L.tells? types f b = none ∨ L.tells? types f b' = none :=
      ⟨fun _ _ h f => (h f).symm⟩
    rcases h.forall hb hb' heq f with hnone | hnone
    · simp [hnone] at htells
    · simp [hnone] at htells'

/-- Listings that have been read can be listings of the node, and for every feature what counts is
    stored. -/
theorem exists_stored {step : Node → β → Except Fault Node} (hstep : L.Reads types step)
    (h : l.foldlM step n = .ok n') :
    (∀ b ∈ l, L.Readable types n.classifier b) ∧
      ∃ stored, n' = L.part.put n stored ∧
        ∀ f, stored[f]? = (L.last? types l f).or (L.part.get n)[f]? := by
  induction l generalizing n with
  | nil =>
    obtain rfl : n = n' := Except.ok.inj h
    exact ⟨List.forall_mem_nil _, L.part.get n, (L.part.put_get n).symm, fun f => rfl⟩
  | cons b l ih =>
    rw [List.foldlM_cons, bind_eq_ok] at h
    obtain ⟨n₁, hfirst, hrest⟩ := h
    obtain ⟨info, hinfo, hdeclares, hsound, heq⟩ := hstep n b n₁ hfirst
    obtain ⟨hl, stored, hstored, hlookup⟩ := ih hrest
    -- Neither the classifier nor any other part of the node depends on what has been listed.
    have hclassifier : n₁.classifier = n.classifier := by
      rw [heq]
      split
      · exact L.part.classifier_put _ _
      · rfl
    rw [hclassifier] at hl
    refine ⟨List.forall_mem_cons.2 ⟨⟨info, hinfo, hdeclares, hsound⟩, hl⟩, stored, ?_,
      fun f => ?_⟩
    · rw [hstored, heq]
      split
      · exact L.part.put_put _ _ _
      · rfl
    · have htells : L.tells? types f b = if info.handle = f then L.content? info b else none := by
        rw [tells?, hinfo]
      rw [hlookup, last?_cons, htells, Option.or_assoc, heq]
      congr 1
      cases L.content? info b with
      | none => simp
      | some a =>
        rw [L.part.get_put, lookup_insert]
        split <;> rfl

theorem applicable_eq_ok {kind : ElementKind} {n : Node} {p : Pointer} {info : FeatureInfo} :
    applicable types kind n p = .ok info ↔
      types.feature kind p = .ok info ∧ types.declares n.classifier info.handle = true := by
  rw [applicable, bind_eq_ok]
  constructor
  · rintro ⟨info', hinfo, h⟩
    split at h
    · next hdeclares =>
      cases h
      exact ⟨hinfo, hdeclares⟩
    · cases h
  · rintro ⟨hinfo, hdeclares⟩
    exact ⟨info, hinfo, if_pos hdeclares⟩

/-- A property has a type of values. -/
theorem exists_dataType {p : Pointer} {info : FeatureInfo}
    (h : types.feature .property p = .ok info) : ∃ type, info.dataType? = some type := by
  obtain ⟨-, -, -, hkind⟩ := TypeRegistry.feature_eq_ok.1 h
  rw [FeatureInfo.elementKind] at hkind
  rw [FeatureInfo.dataType?]
  cases hk : info.kind with
  | property type => exact ⟨type, rfl⟩
  | containment multiple => simp [hk] at hkind
  | reference multiple => simp [hk] at hkind

theorem reads_properties : properties.Reads types (addProperty types) := by
  intro n p n' h
  obtain ⟨info, happlicable, h⟩ := bind_eq_ok.1 h
  obtain ⟨hinfo, hdeclares⟩ := applicable_eq_ok.1 happlicable
  obtain ⟨type, htype⟩ := exists_dataType hinfo
  refine ⟨info, hinfo, hdeclares, ?_⟩
  -- A property without a value tells nothing.
  cases hvalue : p.value with
  | none =>
    simp only [hvalue] at h
    refine ⟨fun s hs => by simp [hvalue] at hs, ?_⟩
    simp [properties, hvalue, htype, ← Except.ok.inj h]
  | some s =>
    simp only [hvalue, htype] at h
    obtain ⟨v, hread, h⟩ := bind_eq_ok.1 h
    have hv : Value.ofText? type s = some v := by
      rw [Value.read] at hread
      split at hread
      · next hv => exact hv.trans (congrArg some (Except.ok.inj hread))
      · cases hread
    refine ⟨fun s' hs => ⟨type, v, htype, ?_⟩, ?_⟩
    · rwa [← Option.some.inj (hvalue.symm.trans hs)]
    · simp [properties, hvalue, htype, hv, ← Except.ok.inj h, Node.Part.properties]

theorem reads_containments : containments.Reads types (addContainment types) := by
  intro n c n' h
  obtain ⟨info, happlicable, h⟩ := bind_eq_ok.1 h
  obtain ⟨hinfo, hdeclares⟩ := applicable_eq_ok.1 happlicable
  refine ⟨info, hinfo, hdeclares, trivial, ?_⟩
  cases h
  rw [containments, content?_ofLists]
  cases c.children.isEmpty <;> rfl

theorem reads_references : references.Reads types (addReference types) := by
  intro n r n' h
  obtain ⟨info, happlicable, h⟩ := bind_eq_ok.1 h
  obtain ⟨hinfo, hdeclares⟩ := applicable_eq_ok.1 happlicable
  obtain ⟨hnone, h⟩ := guard_eq_ok.1 h
  refine ⟨info, hinfo, hdeclares, fun e he => ?_, ?_⟩
  · exact Bool.not_eq_true _ ▸ fun hempty => hnone (List.any_eq_true.2 ⟨e, he, hempty⟩)
  · cases h
    rw [references, content?_ofLists]
    cases r.entries.isEmpty <;> rfl

/-- A node has all that is in each list if no list is disputed, and only then. -/
theorem forall_readable_iff {γ : Type} {part : Node.Part (List γ)} {kind : ElementKind}
    {pointer : β → Pointer} {list : β → List γ} {Sound : List γ → Prop}
    {Part : List γ → List γ → Prop} (hnil : ∀ l, Part [] l)
    (h : ∀ b ∈ l, (ofLists part kind pointer list Sound).Readable types c b) :
    (∀ b ∈ l, ∃ info, types.feature kind (pointer b) = .ok info ∧ Part (list b)
        (((ofLists part kind pointer list Sound).last? types l info.handle).getD [])) ↔
      (ofLists part kind pointer list Sound).Undisputed types Part l := by
  constructor
  · intro hheld b hb f a htells a' hlast
    obtain ⟨info, hinfo, rfl, hcontent⟩ := tells?_eq_some.1 htells
    obtain ⟨info', hinfo', hpart⟩ := hheld b hb
    obtain rfl : info = info' := Except.ok.inj (hinfo.symm.trans hinfo')
    rw [content?_ofLists] at hcontent
    split at hcontent
    · cases hcontent
    · cases hcontent
      rwa [hlast] at hpart
  · intro hundisputed b hb
    obtain ⟨info, hinfo, -, -⟩ := h b hb
    refine ⟨info, hinfo, ?_⟩
    -- An empty list tells nothing, so nothing is lost with it.
    cases hlist : list b with
    | nil => exact hnil _
    | cons x xs =>
      have htells : (ofLists part kind pointer list Sound).tells? types info.handle b =
          some (x :: xs) :=
        tells?_eq_some.2 ⟨info, hinfo, rfl, by rw [content?_ofLists, hlist]; rfl⟩
      obtain ⟨a', hlast⟩ := exists_last? hb htells
      rw [hlast]
      exact hundisputed b hb _ _ htells _ hlast

/-- A node has every value that is listed if no value is disputed, and only then. -/
theorem forall_value_iff {l : List Property} (h : ∀ p ∈ l, properties.Readable types c p) :
    (∀ p ∈ l, ∀ s, p.value = some s → ∃ info type v,
      types.feature .property p.pointer = .ok info ∧ info.dataType? = some type ∧
        Value.ofText? type s = some v ∧ properties.last? types l info.handle = some v) ↔
      properties.Undisputed types (· = ·) l := by
  constructor
  · -- Two tellings of a feature agree as both agree with the last.
    intro hheld p hp f v htells v' hlast
    obtain ⟨info, hinfo, rfl, hcontent⟩ := tells?_eq_some.1 htells
    obtain ⟨type, htype, hcontent⟩ := Option.bind_eq_some_iff.1 hcontent
    obtain ⟨s, hs, hv⟩ := Option.bind_eq_some_iff.1 hcontent
    obtain ⟨info', type', v'', hinfo', htype', hv', hlast'⟩ := hheld p hp s hs
    obtain rfl : info = info' := Except.ok.inj (hinfo.symm.trans hinfo')
    obtain rfl : type = type' := Option.some.inj (htype.symm.trans htype')
    exact Option.some.inj (hv.symm.trans (hv'.trans (hlast'.symm.trans hlast)))
  · intro hundisputed p hp s hs
    obtain ⟨info, hinfo, -, hsound⟩ := h p hp
    obtain ⟨type, v, htype, hv⟩ := hsound s hs
    have htells : properties.tells? types info.handle p = some v := by
      refine tells?_eq_some.2 ⟨info, hinfo, rfl, ?_⟩
      simp [properties, htype, hs, hv]
    obtain ⟨v', hlast⟩ := exists_last? hp htells
    obtain rfl : v = v' := hundisputed p hp _ _ htells _ hlast
    exact ⟨info, type, v, hinfo, htype, hv, hlast⟩

end Listing

/-! ## Items -/

namespace Item

variable (types : TypeRegistry) (item : Item) (n : Node)

/-- A node has all that an item lists: every value of a property that is set, all children in a
    containment in their order, all entries in a reference, and the annotations. -/
structure HeldBy : Prop where
  id : n.id = item.id
  classifier : ∃ info, types.classifier item.classifier = .ok info ∧ n.classifier = info.handle
  values : ∀ p ∈ item.properties, ∀ s, p.value = some s → ∃ info type v,
    types.feature .property p.pointer = .ok info ∧ info.dataType? = some type ∧
      Value.ofText? type s = some v ∧ n.property? info.handle = some v
  children : ∀ c ∈ item.containments, ∃ info,
    types.feature .containment c.pointer = .ok info ∧
      c.children.Sublist (n.children info.handle)
  entries : ∀ r ∈ item.references, ∃ info,
    types.feature .reference r.pointer = .ok info ∧ r.entries ⊆ n.entries info.handle
  annotations : n.annotations = item.annotations

/-- What an item is read as: a node that has for every feature what counts of the listings. -/
structure ReadAs : Prop where
  id : n.id = item.id
  classifier : ∃ info, types.classifier item.classifier = .ok info ∧ n.classifier = info.handle
  properties : ∀ f, n.properties[f]? = Listing.properties.last? types item.properties f
  containments : ∀ f, n.containments[f]? = Listing.containments.last? types item.containments f
  references : ∀ f, n.references[f]? = Listing.references.last? types item.references f
  annotations : n.annotations = item.annotations

/-- An item whose listings a node of a classifier can have. -/
structure Readable (classifier : Handle) : Prop where
  properties : ∀ p ∈ item.properties, Listing.properties.Readable types classifier p
  containments : ∀ c ∈ item.containments, Listing.containments.Readable types classifier c
  references : ∀ r ∈ item.references, Listing.references.Readable types classifier r

/-- An item none of whose listings has anything that what counts for its feature has not. -/
structure Undisputed : Prop where
  properties : Listing.properties.Undisputed types (· = ·) item.properties
  containments : Listing.containments.Undisputed types List.Sublist item.containments
  references : Listing.references.Undisputed types (· ⊆ ·) item.references

/-- An item that lists no feature twice, but for listings that say nothing. -/
structure Once : Prop where
  properties : Listing.properties.Once types item.properties
  containments : Listing.containments.Once types item.containments
  references : Listing.references.Once types item.references

variable {types item n} {c : Handle}

theorem Once.undisputed (h : item.Once types) : item.Undisputed types where
  properties := h.properties.undisputed fun _ => rfl
  containments := h.containments.undisputed .refl
  references := h.references.undisputed .refl

theorem readAs_of_toNode (h : item.toNode types = .ok n) :
    item.ReadAs types n ∧ item.Readable types n.classifier := by
  obtain ⟨info, hinfo, h⟩ := bind_eq_ok.1 h
  obtain ⟨n₁, hproperties, h⟩ := bind_eq_ok.1 h
  obtain ⟨n₂, hcontainments, h⟩ := bind_eq_ok.1 h
  obtain ⟨n₃, hreferences, h⟩ := bind_eq_ok.1 h
  cases h
  obtain ⟨hps, ps, rfl, hp⟩ := Listing.exists_stored Listing.reads_properties hproperties
  obtain ⟨hcs, cs, rfl, hc⟩ := Listing.exists_stored Listing.reads_containments hcontainments
  obtain ⟨hrs, rs, rfl, hr⟩ := Listing.exists_stored Listing.reads_references hreferences
  refine ⟨⟨rfl, ⟨info, hinfo, rfl⟩, fun f => (hp f).trans ?_, fun f => (hc f).trans ?_,
    fun f => (hr f).trans ?_, rfl⟩, ⟨hps, hcs, hrs⟩⟩
  all_goals exact Option.or_none

/-- Ids stay as they are. -/
theorem ids_of_mapM {items : List Item} {nodes : List Node}
    (h : items.mapM (toNode types) = .ok nodes) : nodes.map Node.id = items.map (·.id) := by
  rw [← List.forall₂_eq_eq_eq, List.forall₂_map_left_iff, List.forall₂_map_right_iff]
  exact ((mapM_eq_ok.1 h).imp fun _ _ hn => (readAs_of_toNode hn).1.id).flip

theorem ReadAs.held_iff (h : item.ReadAs types n) (hreadable : item.Readable types c) :
    item.HeldBy types n ↔ item.Undisputed types := by
  -- What the node has is what counts of the listings.
  have hvalues := Listing.forall_value_iff hreadable.properties
  have hchildren : (∀ c ∈ item.containments, ∃ info,
      types.feature .containment c.pointer = .ok info ∧
        c.children.Sublist (n.children info.handle)) ↔
        Listing.containments.Undisputed types List.Sublist item.containments := by
    simp only [Node.children, h.containments]
    exact Listing.forall_readable_iff List.nil_sublist hreadable.containments
  have hentries : (∀ r ∈ item.references, ∃ info,
      types.feature .reference r.pointer = .ok info ∧ r.entries ⊆ n.entries info.handle) ↔
        Listing.references.Undisputed types (· ⊆ ·) item.references := by
    simp only [Node.entries, h.references]
    exact Listing.forall_readable_iff List.nil_subset hreadable.references
  simp only [← h.properties] at hvalues
  constructor
  · intro hheld
    exact ⟨hvalues.1 hheld.values, hchildren.1 hheld.children, hentries.1 hheld.entries⟩
  · intro hundisputed
    exact ⟨h.id, h.classifier, hvalues.2 hundisputed.properties,
      hchildren.2 hundisputed.containments, hentries.2 hundisputed.references, h.annotations⟩

end Item

/-! ## Chunks -/

/-- A subtree that has all that is listed in a chunk. -/
def HeldBy (types : TypeRegistry) (chunk : Chunk) (tree : Subtree) : Prop :=
  ∀ item ∈ chunk.items, ∃ n ∈ tree.nodes, item.HeldBy types n

/-- What is kept of a chunk: there is one node for each item, which has for every feature what
    counts of the listings, so nothing is lost just if no item is disputed. None is where every
    feature is listed once. -/
structure Keeps (types : TypeRegistry) (chunk : Chunk) (tree : Subtree) : Prop where
  ids : (tree.nodes.map Node.id).Perm (chunk.items.map (·.id))
  read : ∀ item ∈ chunk.items, ∃ n ∈ tree.nodes, item.ReadAs types n
  held_iff : chunk.HeldBy types tree ↔ ∀ item ∈ chunk.items, item.Undisputed types
  held_of_once : (∀ item ∈ chunk.items, item.Once types) → chunk.HeldBy types tree

variable {types : TypeRegistry} {known : NodeTable} {chunk : Chunk} {tree : Subtree}

/-- Each item is read as a node of the subtree. -/
theorem exists_readAs (h : chunk.toSubtree types known = .ok tree) :
    ∀ item ∈ chunk.items, ∃ n ∈ tree.nodes,
      item.ReadAs types n ∧ item.Readable types n.classifier := by
  obtain ⟨nodes, hnodes, -, -, hlist⟩ := toSubtree_eq_ok.1 h
  obtain ⟨root, hgrown⟩ := Subtree.ofList_eq_ok.1 hlist
  intro item hitem
  obtain ⟨n, hn, hread⟩ := exists_mem_of_mapM hnodes item hitem
  obtain ⟨hreadAs, hreadable⟩ := Item.readAs_of_toNode hread
  -- The node is in the subtree, with a link to its owner.
  have hlookup := hgrown.lookup_nodes (k := n.id)
  rw [(NodeTable.lookup_ofList_eq_some hgrown.distinct).2 ⟨hn, rfl⟩] at hlookup
  refine ⟨_, ((NodeTable.lookup_ofList_eq_some hgrown.distinct_nodes).1 hlookup).1, ?_⟩
  rw [Subtree.link_eq]
  exact ⟨⟨hreadAs.id, hreadAs.classifier, hreadAs.properties, hreadAs.containments,
    hreadAs.references, hreadAs.annotations⟩, hreadable⟩

/-- Nothing is lost if no item is disputed, and only then. -/
theorem heldBy_iff (h : chunk.toSubtree types known = .ok tree) :
    chunk.HeldBy types tree ↔ ∀ item ∈ chunk.items, item.Undisputed types := by
  have hdistinct := (isTree_toSubtree h).distinct
  constructor
  · intro hheld item hitem
    obtain ⟨n, hn, hreadAs, hreadable⟩ := exists_readAs h item hitem
    obtain ⟨n', hn', hheld⟩ := hheld item hitem
    obtain rfl : n = n' :=
      List.inj_on_of_nodup_map hdistinct hn hn' (hreadAs.id.trans hheld.id.symm)
    exact (hreadAs.held_iff hreadable).1 hheld
  · intro hundisputed item hitem
    obtain ⟨n, hn, hreadAs, hreadable⟩ := exists_readAs h item hitem
    exact ⟨n, hn, (hreadAs.held_iff hreadable).2 (hundisputed item hitem)⟩

/-- Whatever a chunk is read as has one node for each item, and of what is listed for a feature
    what counts. -/
theorem keeps_of_toSubtree (h : chunk.toSubtree types known = .ok tree) :
    chunk.Keeps types tree where
  ids := by
    obtain ⟨nodes, hnodes, -, -, hlist⟩ := toSubtree_eq_ok.1 h
    obtain ⟨root, hgrown⟩ := Subtree.ofList_eq_ok.1 hlist
    rw [← Item.ids_of_mapM hnodes]
    exact hgrown.perm_ids
  read item hitem :=
    let ⟨n, hn, hreadAs, _⟩ := exists_readAs h item hitem
    ⟨n, hn, hreadAs⟩
  held_iff := heldBy_iff h
  held_of_once honce := (heldBy_iff h).2 fun item hitem => (honce item hitem).undisputed

end Chunk

namespace Examples

/-- A book that is listed with a title once more without one, and twice with related books: first
    with a book that is nowhere, then with the name of one. -/
def relisted : Chunk :=
  ⟨[{ id := ⟨"sequel"⟩
      classifier := library.pointer "Book"
      properties := [⟨library.pointer "Book-title", some "Emma"⟩,
        ⟨library.pointer "Book-title", none⟩]
      containments := []
      references := [⟨library.pointer "Book-related", [⟨some ⟨"ghost"⟩, none⟩]⟩,
        ⟨library.pointer "Book-related", [⟨none, some "Persuasion"⟩]⟩]
      annotations := []
      parent := none }]⟩

/-- What that book is read as. -/
def misread : Subtree :=
  ⟨{ (Node.bare ⟨"sequel"⟩ ⟨5⟩).withEntries ⟨11⟩ [⟨none, some "Persuasion"⟩] with
      properties := (∅ : FeatureMap Value).insert ⟨6⟩ (.string "Emma") }, []⟩

theorem toSubtree_relisted : relisted.toSubtree libraryTypes ∅ = .ok misread :=
  Chunk.toSubtree_eq_ok.2 ⟨[misread.root], by decide +kernel,
    List.forall_mem_singleton.2 Std.ExtTreeMap.not_mem_empty,
    by decide +kernel, Subtree.single_of_leaf (by decide +kernel)⟩

/-- The last title that says anything and the last list of related books are kept. -/
theorem keeps_relisted : relisted.toSubtree libraryTypes ∅ = .ok misread ∧
    relisted.Keeps libraryTypes misread :=
  ⟨toSubtree_relisted, Chunk.keeps_of_toSubtree toSubtree_relisted⟩

/-- The first list of related books is lost, and with it that the book in it is nowhere. -/
theorem exists_dropped : relisted.toSubtree libraryTypes ∅ = .ok misread ∧
    ¬relisted.HeldBy libraryTypes misread := by
  refine ⟨toSubtree_relisted, fun hheld => ?_⟩
  obtain ⟨n, hn, hitem⟩ := hheld _ (List.mem_singleton.2 rfl)
  obtain rfl : n = misread.root := List.mem_singleton.1 hn
  obtain ⟨info, hinfo, hentries⟩ := hitem.entries _ List.mem_cons_self
  have hrelated : libraryTypes.feature .reference (library.pointer "Book-related") =
      .ok ⟨⟨11⟩, library.pointer "Book-related", "related", ⟨5⟩, .reference true⟩ := by
    decide +kernel
  obtain rfl := Except.ok.inj (hrelated.symm.trans hinfo)
  have hghost : (⟨some ⟨"ghost"⟩, none⟩ : Entry) ∉ misread.root.entries ⟨11⟩ := by decide +kernel
  exact hghost (hentries (List.mem_singleton.2 rfl))

end Examples

end DeltaForest
