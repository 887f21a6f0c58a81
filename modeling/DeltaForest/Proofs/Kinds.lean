import DeltaForest.Proofs.Roles

/-!
# What the kinds of classifiers mean

An interface is abstract, so that no node should be an instance of it. An annotation can only be
attached as such, so that none should be at the top or among the children of another node. A forest
looks at kinds where annotations are attached, which only keeps other nodes from being annotations;
where nodes are registered (`Station.registered`), where they are at the top (`Station.top`) and
where they are children (`Station.child`) it does not look at them.

So the kinds mean what they should mean as long as all who make changes see to it themselves. What
they have to see to is told exactly by `Change.Intrudes`: a change brings a node to a station from
which its kind is barred, or it gives a node that is there a classifier of such a kind. An accepted
change leaves a station to those that may be there exactly if it does not do that
(`Forest.heeds_outcome_iff`).
-/

namespace DeltaForest

/-- Where a node is, as far as its kind is concerned. -/
inductive Station
  | registered
  | top
  | child
  deriving DecidableEq

/-- The kind of which no node should be at a station. -/
def Station.barred : Station → ClassifierKind
  | registered => .interface
  | top | child => ClassifierKind.annotation

/-- The classifier at a handle is of a kind that is barred from a station. -/
def TypeRegistry.Bars (types : TypeRegistry) (station : Station) (h : Handle) : Prop :=
  ∃ info, types.classifierAt h = .ok info ∧ info.kind = station.barred

namespace Forest

/-- A node is at a station. -/
def Occupies (f : Forest) (id : NodeId) : Station → Prop
  | .registered => id ∈ f.nodes
  | .top => id ∈ f.partitions
  | .child => ∃ (owner : NodeId) (n : Node) (feature : Handle),
    f.nodes[owner]? = some n ∧ id ∈ n.children feature

/-- Nobody is at a station from which its kind is barred. -/
def Heeds (f : Forest) (station : Station) : Prop :=
  ∀ id, f.Occupies id station → ∀ n, f.nodes[id]? = some n → ¬f.types.Bars station n.classifier

end Forest

/-! ## Tables -/

namespace NodeTable

variable {t t' : NodeTable} {k : NodeId} {station : Station}

/-- A node of a table is at a station. -/
def Occupies (t : NodeTable) (k : NodeId) : Station → Prop
  | .registered => k ∈ t
  | .top => t.IsTop k
  | .child => ∃ owner feature, k ∈ t.seated owner (.containment feature)

/-- A table in which nobody is at a station from which its kind is barred. -/
def Heeds (types : TypeRegistry) (station : Station) (t : NodeTable) : Prop :=
  ∀ k, t.Occupies k station → ∀ n, t[k]? = some n → ¬types.Bars station n.classifier

theorem heeds_empty (types : TypeRegistry) (station : Station) : Heeds types station ∅ :=
  fun k _ n hn => by simp at hn

/-- Whoever is at a station is there. -/
theorem Treelike.mem_of_occupies (h : t.Treelike) (hk : t.Occupies k station) : k ∈ t := by
  rcases station
  · exact hk
  · exact hk.1
  · obtain ⟨owner, feature, hk⟩ := hk
    obtain ⟨i, hi⟩ := List.mem_iff_getElem?.1 hk
    have hplace : t.at? ⟨owner, .containment feature, i⟩ = some k := hi
    exact (h.mem_of_above? (h.above?_of_at? hplace)).1

/-- A step that does not touch seats leaves those who sit where they are. -/
theorem Steady.seated_edited {step : Node → Node} {id owner : NodeId} {s : Seat}
    (h : Steady step) : (t.edited id step).seated owner s = t.seated owner s := by
  have hstep (n : Node) : (step n).seated s = n.seated s := by
    rcases s
    · exact congrArg (fun m : FeatureMap (List NodeId) => (m[_]?).getD []) (h.containments n)
    · exact h.annotations n
  rw [seated, lookup_edited, seated]
  rcases t[owner]? with _ | n
  · rfl
  · by_cases hid : id = owner <;> simp [hid, hstep]

/-- An edit of a node that leaves it where it is leaves it at its station. -/
theorem Retouched.occupies_iff (h : t.Retouched t') :
    t'.Occupies k station ↔ t.Occupies k station := by
  induction h with
  | self => rfl
  | edited _ hstep ih =>
    refine Iff.trans ?_ ih
    rcases station
    · exact mem_edited
    · exact (Retouched.self.edited hstep).isTop_iff
    · simp only [Occupies, hstep.seated_edited]

/-- Another classifier of a node matters to a station if the node is there. -/
theorem heeds_reclassified_iff {types : TypeRegistry} {id : NodeId} {new : Handle} (hid : id ∈ t)
    (h : t.Heeds types station) :
    (t.edited id ({ · with classifier := new })).Heeds types station ↔
      (t.Occupies id station → ¬types.Bars station new) := by
  have hsteady : Steady ({ · with classifier := new }) :=
    ⟨fun _ => rfl, fun _ => rfl, fun _ => rfl, fun _ => rfl⟩
  -- Stations do not look at classifiers.
  have hoccupies {k : NodeId} :
      (t.edited id ({ · with classifier := new })).Occupies k station ↔ t.Occupies k station :=
    (Retouched.self.edited hsteady).occupies_iff
  constructor
  · intro hafter hin
    obtain ⟨n, hn⟩ := mem_iff_exists.1 hid
    have hnew : (t.edited id ({ · with classifier := new }))[id]? =
        some { n with classifier := new }.prune := by
      rw [lookup_edited, hn, Option.map_some, if_pos rfl]
    exact hafter id (hoccupies.2 hin) _ hnew
  · intro hnew k hin n' hn'
    rw [lookup_edited] at hn'
    obtain ⟨n, hn, rfl⟩ := Option.map_eq_some_iff.1 hn'
    split
    · next heq => exact hnew (heq ▸ hoccupies.1 hin)
    · exact h k (hoccupies.1 hin) n hn

end NodeTable

namespace Forest

variable {f : Forest} {station : Station} {id : NodeId}

theorem WellFormed.occupies_iff (h : f.WellFormed) :
    f.Occupies id station ↔ f.nodes.Occupies id station := by
  rcases station
  · exact Iff.rfl
  · exact h.roots id
  · constructor
    · rintro ⟨owner, n, feature, hn, hid⟩
      exact ⟨owner, feature, by rwa [NodeTable.seated_eq hn]⟩
    · rintro ⟨owner, feature, hid⟩
      obtain ⟨n, hn⟩ := mem_iff_exists.1 (NodeTable.mem_of_mem_seated hid)
      exact ⟨owner, n, feature, hn, by rwa [NodeTable.seated_eq hn] at hid⟩

theorem WellFormed.heeds_iff (h : f.WellFormed) :
    f.Heeds station ↔ f.nodes.Heeds f.types station :=
  forall_congr' fun _ => imp_congr_left h.occupies_iff

end Forest

/-! ## What a reshaping brings -/

namespace NodeTable

variable {t : NodeTable} {tree : Subtree} {above : Option NodeId} {n : Node} {p : Place Seat}
variable {old : NodeId}

/-- The nodes of a planted subtree are there as they came. -/
theorem exists_planted (hd : (tree.nodes.map Node.id).Nodup) (hn : n ∈ tree.nodes) :
    ∃ n', (t.planted tree above)[n.id]? = some n' ∧ n'.classifier = n.classifier ∧
      ∀ s, n'.seated s = n.seated s := by
  rw [lookup_planted, Subtree.lookup_table hd, (lookup_ofList_eq_some hd).2 ⟨hn, rfl⟩]
  refine ⟨_, rfl, ?_⟩
  dsimp only
  split
  · exact ⟨rfl, fun s => by rcases s <;> rfl⟩
  · exact ⟨rfl, fun _ => rfl⟩

/-- The root of a subtree that has come sits in the seat. -/
theorem mem_seated_attached (hd : (tree.nodes.map Node.id).Nodup) (hv : t.Vacant tree)
    (ho : p.owner ∈ t) (hi : p.index ≤ (t.seated p.owner p.feature).length) :
    tree.root.id ∈ (t.attached p tree).seated p.owner p.feature := by
  have ho' : p.owner ∈ t.planted tree (some p.owner) := (mem_planted hd).2 (.inr ho)
  rw [attached, inserted, seated_withSeated ho', if_pos ⟨rfl, rfl⟩, seated_planted hv hd ho]
  exact (List.mem_insertIdx hi).2 (.inl rfl)

/-- The root of a subtree that has taken a seat sits there. -/
theorem mem_seated_exchanged (ht : t.Treelike) (hd : (tree.nodes.map Node.id).Nodup)
    (hv : t.Vacant tree) (hp : t.at? p = some old) :
    tree.root.id ∈ (t.exchanged p tree old).seated p.owner p.feature := by
  have hv' : ((t.replaced p tree.root.id).felled old).Vacant tree :=
    hv.mono fun k hk => mem_replaced.1 (mem_felled.1 hk).1
  -- The owner of the seat is not below the one that goes, so it stays.
  have ho : p.owner ∉ (t.replaced p tree.root.id).depthFirst old := by
    rw [replaced, depthFirst_withSeated (ht.owner_notMem_depthFirst hp)]
    exact ht.owner_notMem_depthFirst hp
  have hlookup : ((t.replaced p tree.root.id).felled old)[p.owner]? =
      (t.replaced p tree.root.id)[p.owner]? := by
    rw [lookup_felled, if_neg ho]
  have hmem : p.owner ∈ (t.replaced p tree.root.id).felled old :=
    mem_felled.2 ⟨mem_replaced.2 (mem_of_at? hp), ho⟩
  rw [exchanged, seated_planted hv' hd hmem, seated, hlookup, ← seated, replaced,
    seated_withSeated (mem_of_at? hp), if_pos ⟨rfl, rfl⟩]
  exact List.mem_set (List.getElem?_eq_some_iff.1 hp).1 _

end NodeTable

namespace Reshaping

variable {t : NodeTable} {r : Reshaping} {tree : Subtree} {n : Node}

/-- The nodes that come are there as they came. -/
theorem exists_outcome (hr : r.Fits t) (htree : ∀ tree ∈ r.incoming, tree.IsTree)
    (hin : tree ∈ r.incoming) (hn : n ∈ tree.nodes) :
    ∃ n', (r.outcome t)[n.id]? = some n' ∧ n'.classifier = n.classifier ∧
      ∀ s, n'.seated s = n.seated s := by
  have hd := (htree tree hin).distinct
  rcases r
  case plant | exchange =>
    rcases List.mem_singleton.1 hin with rfl
    exact NodeTable.exists_planted hd hn
  case attach p tree' =>
    rcases List.mem_singleton.1 hin with rfl
    obtain ⟨hv, ho, -⟩ := hr
    obtain ⟨n', hn', hsame⟩ : ∃ n', (t.planted tree (some p.owner))[n.id]? = some n' ∧
        n'.classifier = n.classifier ∧ ∀ s, n'.seated s = n.seated s :=
      NodeTable.exists_planted hd hn
    -- Who gets the subtree is not one of its nodes.
    have hne : p.owner ≠ n.id := fun heq => hv n hn (heq ▸ ho)
    refine ⟨n', ?_, hsame⟩
    rw [outcome, NodeTable.attached, NodeTable.inserted, NodeTable.lookup_withSeated, hn',
      Option.map_some, if_neg hne]
  all_goals exact absurd hin List.not_mem_nil

end Reshaping

/-- Nodes whose children are all of some sort. -/
def NodeRule.holding (Fit : NodeId → Prop) : NodeRule where
  Allows n := ∀ feature, ∀ k ∈ n.children feature, Fit k
  Seats _ s ids := s ≠ .annotations → ∀ k ∈ ids, Fit k
  linked h _ := h
  seated {n} h s := by
    rcases s with feature | _
    · exact fun _ => h feature
    · exact fun hne => absurd rfl hne
  withSeated {n s ids} h hs feature k hk := by
    have hk : k ∈ (n.withSeated s ids).prune.seated (.containment feature) := hk
    rw [Node.seated_prune, Node.seated_withSeated] at hk
    split at hk
    · next heq => exact hs (by simp [heq]) k hk
    · exact h feature k hk
  sublist hs hsub hne k hk := hs hne k (hsub.subset hk)

/-- A child is of the sort that children are. -/
theorem NodeTable.Obeys.fit_of_child {t : NodeTable} {Fit : NodeId → Prop} {owner k : NodeId}
    {feature : Handle} (h : t.Obeys (.holding Fit))
    (hk : k ∈ t.seated owner (.containment feature)) : Fit k := by
  obtain ⟨n, hn⟩ := mem_iff_exists.1 (mem_of_mem_seated hk)
  rw [seated_eq hn] at hk
  exact h owner n hn feature k hk

/-! ## What a change brings -/

namespace Change

/-- A node comes to a station by a change. -/
def Brings (c : Change) (n : Node) : Station → Prop
  | .registered => ∃ tree ∈ c.incoming, n ∈ tree.nodes
  | .top => ∃ tree, c = partitionAdded tree ∧ n = tree.root
  | .child =>
    (∃ tree ∈ c.incoming, n ∈ tree.nodes ∧
      ∃ owner ∈ tree.nodes, ∃ feature, n.id ∈ owner.children feature) ∨
    ∃ place tree, (c = childAdded place tree ∨ ∃ old, c = childReplaced place tree old) ∧
      n = tree.root

/-- A change that has to do with a kind at a station from which it is barred. -/
def Misuses (types : TypeRegistry) (station : Station) (c : Change) : Prop :=
  (∃ n, c.Brings n station ∧ types.Bars station n.classifier) ∨
    ∃ id new old, c = classifierChanged id new old ∧ types.Bars station new

/-- A change by which somebody is at a station from which its kind is barred. -/
def Intrudes (f : Forest) (station : Station) (c : Change) : Prop :=
  (∃ n, c.Brings n station ∧ f.types.Bars station n.classifier) ∨
    ∃ id new old, c = classifierChanged id new old ∧ f.Occupies id station ∧
      f.types.Bars station new

variable {m : Model} {t : NodeTable} {c : Change} {r : Reshaping} {station : Station} {k : NodeId}
variable {n : Node} {f : Forest}

/-- A change that brings somebody of the wrong kind to a station brings such a one at all. -/
theorem misuses_of_intrudes (h : c.Intrudes f station) : c.Misuses f.types station := by
  obtain h | ⟨id, new, old, rfl, -, hbars⟩ := h
  · exact .inl h
  · exact .inr ⟨id, new, old, rfl, hbars⟩

/-- Who is brought is in a subtree that comes. -/
theorem exists_incoming_of_brings (h : c.Brings n station) :
    ∃ tree ∈ c.incoming, n ∈ tree.nodes := by
  rcases station
  · exact h
  · obtain ⟨tree, rfl, rfl⟩ := h
    exact ⟨tree, List.mem_cons_self, List.mem_cons_self⟩
  · obtain ⟨tree, hin, hn, -⟩ | ⟨place, tree, rfl | ⟨old, rfl⟩, rfl⟩ := h
    · exact ⟨tree, hin, hn⟩
    · exact ⟨tree, List.mem_cons_self, List.mem_cons_self⟩
    · exact ⟨tree, List.mem_cons_self, List.mem_cons_self⟩

/-- A node keeps its classifier when a forest gets another shape. -/
theorem knows_outcome (ht : m.nodes.Treelike) (hc : c.Fits m)
    (htree : ∀ tree ∈ c.incoming, tree.IsTree) (hr : c.reshaping? = some r)
    (hn : (c.outcome m.nodes)[k]? = some n) : c.Knows m.nodes k n.classifier := by
  -- To know of everybody what there is to know of the classifier is a rule that is obeyed before,
  -- and by those who come; so it is obeyed afterwards.
  have hold : m.nodes.Obeys (.annotated (c.Knows m.nodes) fun _ => True) :=
    fun k n hn => ⟨.inl ⟨n, by rwa [ht.keyed k n hn], rfl⟩, fun _ _ _ _ => trivial⟩
  have hsuits : r.Suits (.annotated (c.Knows m.nodes) fun _ => True) m.nodes := by
    rcases r <;> first | trivial | exact fun _ _ _ _ _ _ _ => trivial
  have hnew : ∀ tree ∈ c.incoming, ∀ n ∈ tree.nodes,
      (NodeRule.annotated (c.Knows m.nodes) fun _ => True).Allows n :=
    fun tree hin n hn => ⟨.inr ⟨tree, hin, n, hn, rfl, rfl⟩, fun _ _ _ _ => trivial⟩
  have hafter : (c.outcome m.nodes).Treelike := by
    rw [outcome_of_reshaping hr]
    rw [incoming_of_reshaping hr] at htree
    exact Reshaping.treelike_outcome ht (fits_of_reshaping ht hc hr) htree
  have hknows := (obeys_of_reshaping ht hc hr hold hsuits htree hnew k n hn).1
  rwa [hafter.keyed k n hn] at hknows

/-- A child that has been one before, or that comes as one. -/
def Upholds (t : NodeTable) (c : Change) (k : NodeId) : Prop :=
  t.Occupies k .child ∨ ∃ n, c.Brings n .child ∧ n.id = k

/-- What a table holds is among what it holds together with what a change brings. -/
theorem obeys_holding (t : NodeTable) (c : Change) : t.Obeys (.holding (c.Upholds t)) :=
  fun owner n hn feature k hk => .inl ⟨owner, feature, by rwa [NodeTable.seated_eq hn]⟩

/-- What comes to stand among children has come as a child, or has been one. -/
theorem suits_holding (hc : c.Fits m) (hr : c.reshaping? = some r) :
    r.Suits (.holding (c.Upholds m.nodes)) m.nodes := by
  have hseated {owner k : NodeId} {feature : Handle}
      (hk : k ∈ m.nodes.seated owner (.containment feature)) : c.Upholds m.nodes k :=
    .inl ⟨owner, feature, hk⟩
  -- Who is put into a seat comes along, or sits in a seat already.
  rcases c <;> rcases hr
  case childAdded place new =>
    intro n _ _ k hk
    rcases List.eq_or_mem_of_mem_insertIdx hk with rfl | hk
    · exact .inr ⟨new.root, .inr ⟨place, new, .inl rfl, rfl⟩, rfl⟩
    · exact hseated hk
  case childReplaced place new old =>
    intro n _ _ k hk
    rcases List.mem_or_eq_of_mem_set hk with hk | rfl
    · exact hseated hk
    · exact .inr ⟨new.root, .inr ⟨place, new, .inr ⟨old, rfl⟩, rfl⟩, rfl⟩
  case childMoved shift moved =>
    have hsource := Model.at?_of_locateChild hc.2.1
    intro n _ _ k hk
    rcases List.eq_or_mem_of_mem_insertIdx hk with rfl | hk
    · exact hseated (List.mem_of_getElem? hsource)
    · exact (obeys_holding m.nodes _).removed.fit_of_child hk
  case childMovedAndReplaced shift moved old =>
    have hsource := Model.at?_of_locateChild hc.2.1
    intro n _ _ k hk
    rcases List.mem_or_eq_of_mem_set hk with hk | rfl
    · exact hseated hk
    · exact hseated (List.mem_of_getElem? hsource)
  case partitionAdded | partitionDeleted | childDeleted | annotationDeleted => trivial
  all_goals exact fun _ _ hne => absurd rfl hne

/-- The children of a node that comes come as children. -/
theorem allows_holding (htree : ∀ tree ∈ c.incoming, tree.IsTree) :
    ∀ tree ∈ c.incoming, ∀ n ∈ tree.nodes, (NodeRule.holding (c.Upholds t)).Allows n := by
  intro tree hin n hn feature k hk
  have hmem := (htree tree hin).mem_of_owned hn (n.mem_owned.2 ⟨.containment feature, hk⟩)
  obtain ⟨n', hn', rfl⟩ := List.mem_map.1 hmem
  exact .inr ⟨n', .inl ⟨tree, hin, hn', n, hn, feature, hk⟩, rfl⟩

/-- Where a node is after a change, it has been before, or it comes there. -/
theorem occupied_or_brings (ht : m.nodes.Treelike) (hc : c.Fits m)
    (htree : ∀ tree ∈ c.incoming, tree.IsTree) (hr : c.reshaping? = some r)
    (hk : (c.outcome m.nodes).Occupies k station) :
    m.nodes.Occupies k station ∨ ∃ n, c.Brings n station ∧ n.id = k := by
  -- One station after the other: being there at all, being on top, and sitting in a containment.
  rcases station
  · obtain ⟨n, hn⟩ := mem_iff_exists.1 hk
    obtain ⟨n', hn', -⟩ | ⟨tree, hin, n', hn', hid, -⟩ := knows_outcome ht hc htree hr hn
    · exact .inl (mem_of_lookup hn')
    · exact .inr ⟨n', ⟨tree, hin, hn'⟩, hid⟩
  · replace hk : (c.outcome m.nodes).IsTop k := hk
    rw [outcome_of_reshaping hr] at hk
    have htop := (Reshaping.isTop_outcome ht (fits_of_reshaping ht hc hr)
      (incoming_of_reshaping hr ▸ htree)).1 hk
    rcases c <;> rcases hr
    case partitionAdded tree =>
      rcases htop with rfl | htop
      · exact .inr ⟨tree.root, ⟨tree, rfl, rfl⟩, rfl⟩
      · exact .inl htop
    case partitionDeleted => exact .inl htop.2
    all_goals exact .inl htop
  · obtain ⟨owner, feature, hk⟩ := hk
    have hobeys := obeys_of_reshaping ht hc hr (obeys_holding m.nodes c) (suits_holding hc hr)
      htree (allows_holding htree)
    exact hobeys.fit_of_child hk

/-- Who is brought to a station is there, with the classifier that it came with. -/
theorem occupies_of_brings (ht : m.nodes.Treelike) (hc : c.Fits m)
    (htree : ∀ tree ∈ c.incoming, tree.IsTree) (hr : c.reshaping? = some r)
    (h : c.Brings n station) : (c.outcome m.nodes).Occupies n.id station ∧
      ∃ n', (c.outcome m.nodes)[n.id]? = some n' ∧ n'.classifier = n.classifier := by
  have hfits := fits_of_reshaping ht hc hr
  have hcame {tree : Subtree} {n : Node} (hin : tree ∈ c.incoming) (hn : n ∈ tree.nodes) :
      ∃ n', (c.outcome m.nodes)[n.id]? = some n' ∧ n'.classifier = n.classifier ∧
        ∀ s, n'.seated s = n.seated s := by
    rw [outcome_of_reshaping hr]
    rw [incoming_of_reshaping hr] at htree hin
    exact Reshaping.exists_outcome hfits htree hin hn
  obtain ⟨tree, hin, hn⟩ := exists_incoming_of_brings h
  obtain ⟨n', hn', hclassifier, -⟩ := hcame hin hn
  refine ⟨?_, n', hn', hclassifier⟩
  -- Who is brought to a seat is a child of somebody who comes, or the root itself.
  rcases station
  · exact mem_of_lookup hn'
  · obtain ⟨tree', rfl, rfl⟩ := h
    exact (NodeTable.isTop_planted (htree tree' List.mem_cons_self)
      (Model.vacant_of_checkNew hc.2)).2 (.inl ⟨rfl, rfl⟩)
  · obtain ⟨tree', hin', -, owner, howner, feature, hchild⟩ | ⟨place, tree', hplaced, rfl⟩ := h
    · obtain ⟨owner', howner', -, hseated⟩ := hcame hin' howner
      refine ⟨owner.id, feature, ?_⟩
      rw [NodeTable.seated_eq howner', hseated]
      exact hchild
    · rcases hplaced with rfl | ⟨old, rfl⟩ <;> rcases hr
      · obtain ⟨hv, ho, hi⟩ := hfits
        exact ⟨place.owner, place.feature,
          NodeTable.mem_seated_attached (htree tree' List.mem_cons_self).distinct hv ho hi⟩
      · obtain ⟨hp, hv⟩ := hfits
        exact ⟨place.owner, place.feature,
          NodeTable.mem_seated_exchanged ht (htree tree' List.mem_cons_self).distinct hv hp⟩

end Change

/-! ## Forests -/

namespace Forest

variable {f : Forest} {c : Change} {r : Reshaping} {station : Station}

/-- A change that gives a forest another shape leaves a station to those that may be there exactly
    if it brings no others. -/
theorem heeds_outcome_iff_of_reshaping (ht : f.nodes.Treelike) (hc : c.Fits f.model)
    (htree : ∀ tree ∈ c.incoming, tree.IsTree) (h : f.nodes.Heeds f.types station)
    (hr : c.reshaping? = some r) :
    (c.outcome f.nodes).Heeds f.types station ↔ ¬c.Intrudes f station := by
  have hv := Change.vacant_of_fits hc
  constructor
  · rintro hafter (⟨n, hbrings, hbars⟩ | ⟨id, new, old, rfl, -⟩)
    · obtain ⟨hoccupies, n', hn', hclassifier⟩ :=
        Change.occupies_of_brings (m := f.model) ht hc htree hr hbrings
      exact hafter n.id hoccupies n' hn' (hclassifier ▸ hbars)
    · cases hr
  · intro hnone k hk n hn hbars
    -- Whoever is at the station has been there, or has been brought.
    have hknows := Change.knows_outcome (m := f.model) ht hc htree hr hn
    rcases Change.occupied_or_brings (m := f.model) ht hc htree hr hk with
      hold | ⟨n', hbrings, rfl⟩
    · obtain ⟨n', hn'⟩ := mem_iff_exists.1 (ht.mem_of_occupies hold)
      exact h k hold n' hn' (Change.classifier_of_knows hv hn' hknows ▸ hbars)
    · obtain ⟨tree, hin, hmem⟩ := Change.exists_incoming_of_brings hbrings
      obtain ⟨n'', hmem', hid, hclassifier⟩ :=
        Change.exists_of_knows hv hin (List.mem_map_of_mem hmem) hknows
      obtain rfl := List.inj_on_of_nodup_map (htree tree hin).distinct hmem' hmem hid
      exact hnone (.inl ⟨n'', hbrings, hclassifier ▸ hbars⟩)

/-- A change that leaves all nodes where they are leaves a station to those that may be there
    exactly if it gives no node there a classifier of a kind that is barred. -/
theorem heeds_outcome_iff_of_content (hf : f.WellFormed) (hc : c.Fits f.model)
    (h : f.nodes.Heeds f.types station) (hr : c.reshaping? = none) :
    (c.outcome f.nodes).Heeds f.types station ↔ ¬c.Intrudes f station := by
  have hbrings {n : Node} : ¬c.Brings n station := by
    intro hbrings
    obtain ⟨tree, hin, -⟩ := Change.exists_incoming_of_brings hbrings
    rcases c <;> first | exact List.not_mem_nil hin | cases hr
  by_cases hcategory : c.category = .classifier
  · rcases c <;> rcases hcategory
    case classifierChanged id new old =>
    obtain ⟨-, n, hn, -⟩ := hc
    refine (NodeTable.heeds_reclassified_iff (mem_of_lookup hn) h).trans ⟨?_, ?_⟩
    · rintro hnew (⟨n, hin, -⟩ | ⟨_, _, _, hsame, hoccupies, hbars⟩)
      · exact hbrings hin
      · cases hsame
        exact hnew (hf.occupies_iff.1 hoccupies) hbars
    · intro hnone hoccupies hbars
      exact hnone (.inr ⟨id, new, old, rfl, hf.occupies_iff.2 hoccupies, hbars⟩)
  · refine iff_of_true (fun k hk n' hn' => ?_) ?_
    · -- Classifiers are as before, and so is where nodes are.
      have hview := Change.view_of_content (t := f.nodes) Node.classifier_prune
        (fun _ _ _ => rfl) hr hcategory k
      rw [hn'] at hview
      obtain ⟨n, hn, hsame⟩ := Option.map_eq_some_iff.1 hview.symm
      exact hsame ▸ h k ((Change.retouched_outcome hr).occupies_iff.1 hk) n hn
    · rintro (⟨n, hin, -⟩ | ⟨_, _, _, rfl, -⟩)
      · exact hbrings hin
      · exact hcategory rfl

/-- An accepted change leaves a station to those that may be there exactly if nobody intrudes by
    it. -/
theorem heeds_outcome_iff (hf : f.WellFormed) (hreplan : f.model.replan c = .ok c)
    (htree : ∀ tree ∈ c.incoming, tree.IsTree) (h : f.nodes.Heeds f.types station) :
    (c.outcome f.nodes).Heeds f.types station ↔ ¬c.Intrudes f station := by
  have hc := Model.fits_of_replan hreplan
  rcases hr : c.reshaping? with _ | r
  · exact heeds_outcome_iff_of_content hf hc h hr
  · exact heeds_outcome_iff_of_reshaping hf.treelike hc htree h hr

end Forest

/-! ## Whatever comes about -/

namespace Site.Reachable

variable {types : TypeRegistry} {site : Site} {past : List Checkpoint} {made : List Change}
  (h : Site.Reachable types site past made) {station : Station}

include h

/-- As long as no change has to do with a kind at a station from which it is barred, nobody of the
    kind is there. -/
theorem heeds_of_made (hmade : ∀ c ∈ made, ¬c.Misuses types station) :
    site.forest.Heeds station := by
  have hsound := h.sound
  refine hsound.wellFormed.heeds_iff.2 ?_
  rw [hsound.types]
  refine (h.invariant (P := NodeTable.Heeds types station) (NodeTable.heeds_empty types station)
    (fun f c htypes hf hheeds hc hreplan htree => ?_) hmade).1
  subst htypes
  exact (Forest.heeds_outcome_iff hf hreplan htree hheeds).2 fun hintrudes =>
    hc (Change.misuses_of_intrudes hintrudes)

/-- Where a change is made, a station is left to those that may be there exactly if nobody intrudes
    by it. -/
theorem heeds_apply_iff {c : Change} {f' : Forest} (hin : ∀ tree ∈ c.incoming, tree.Obtainable)
    (hheeds : site.forest.Heeds station)
    (happly : Forest.Action.apply c site.forest = .ok () f') :
    f'.Heeds station ↔ ¬c.Intrudes site.forest station := by
  have hwell := h.sound.wellFormed
  have htree := fun tree ht => (hin tree ht).isTree
  obtain ⟨hreplan, rfl⟩ := (Forest.Action.apply_eq_ok hwell.treelike htree).1 happly
  rw [(hwell.changed (Model.fits_of_replan hreplan) htree).heeds_iff]
  exact Forest.heeds_outcome_iff hwell hreplan htree (hwell.heeds_iff.1 hheeds)

/-- No node is an instance of an interface, and no instance of an annotation is at the top or a
    child, as long as no change has to do with such a kind at such a station. If somebody intrudes
    by a change that is accepted, the kinds do not mean that any more. No other change has this
    effect. -/
theorem heeds : ∀ station, ((∀ c ∈ made, ¬c.Misuses types station) → site.forest.Heeds station) ∧
    ∀ c f', (∀ tree ∈ c.incoming, tree.Obtainable) → site.forest.Heeds station →
      Forest.Action.apply c site.forest = .ok () f' →
        (f'.Heeds station ↔ ¬c.Intrudes site.forest station) :=
  fun _ => ⟨h.heeds_of_made, fun _ _ => h.heeds_apply_iff⟩

end Site.Reachable

/-! ## A market where everybody may come -/

namespace Examples

/-- The types of the shop: an interface at `0`, the shop at `2` and its items at `6`, a review at
    `17`, and an annotation that may be a partition at `21`. -/
def shopTypes : TypeRegistry :=
  ⟨TypeRegistry.elementsFrom shop 0 shop.classifiers, [(shop.key, shop.version)]⟩

theorem registerAll_shop : TypeRegistry.registerAll .empty [shop] = .ok shopTypes := by
  rfl

/-- A shop comes. -/
def marketing : Change := .partitionAdded ⟨.bare ⟨"market"⟩ ⟨2⟩, []⟩

/-- A site with a shop. -/
def market : Site := Call.after (Site.empty shopTypes) (.commit marketing)

/-- An item that is an instance of an interface, an annotation at the top, and an item that is a
    review. -/
def intrusion : Station → Change
  | .registered => .childAdded ⟨⟨"market"⟩, ⟨6⟩, 0⟩ ⟨.bare ⟨"named"⟩ ⟨0⟩, []⟩
  | .top => .partitionAdded ⟨.bare ⟨"note"⟩ ⟨21⟩, []⟩
  | .child => .childAdded ⟨⟨"market"⟩, ⟨6⟩, 0⟩ ⟨.bare ⟨"review"⟩ ⟨17⟩, []⟩

theorem reachable_market : Site.Reachable shopTypes market [] [marketing] :=
  .call (.commit marketing) (.empty _) (List.forall_mem_singleton.2 (obtainable_of_leaf rfl))

theorem not_misuses_marketing (station : Station) :
    ∀ c ∈ [marketing], ¬c.Misuses shopTypes station := by
  intro c hc
  rcases List.mem_singleton.1 hc
  -- The shop is a concept, and nothing comes but the shop.
  have hconcept : ¬shopTypes.Bars station ⟨2⟩ := by
    rintro ⟨info, hinfo, hkind⟩
    cases hinfo
    rcases station <;> cases hkind
  rintro (⟨n, hbrings, hbars⟩ | ⟨_, _, _, hsame, -⟩)
  · obtain ⟨tree, hin, hn⟩ := Change.exists_incoming_of_brings hbrings
    rcases List.mem_singleton.1 hin
    rcases List.mem_singleton.1 hn
    exact hconcept hbars
  · cases hsame

theorem obtainable_intrusion (station : Station) :
    ∀ tree ∈ (intrusion station).incoming, tree.Obtainable := by
  rcases station <;> exact List.forall_mem_singleton.2 (obtainable_of_leaf rfl)

theorem intrudes_intrusion (station : Station) :
    (intrusion station).Intrudes market.forest station := by
  rcases station
  · exact .inl ⟨_, ⟨_, List.mem_cons_self, List.mem_cons_self⟩, _, rfl, rfl⟩
  · exact .inl ⟨_, ⟨_, rfl, rfl⟩, _, rfl, rfl⟩
  · exact .inl ⟨_, .inr ⟨_, _, .inl rfl, rfl⟩, _, rfl, rfl⟩

theorem apply_intrusion (station : Station) :
    Forest.Action.apply (intrusion station) market.forest =
      .ok () (market.forest.changed (intrusion station)) := by
  have hreplan : market.forest.model.replan (intrusion station) = .ok (intrusion station) := by
    rcases station <;> decide +kernel
  have htree := fun tree ht => (obtainable_intrusion station tree ht).isTree
  exact (Forest.Action.apply_eq_ok reachable_market.sound.wellFormed.treelike htree).2
    ⟨hreplan, rfl⟩

/-- The market heeds all stations, and an intrusion spoils each of them. -/
theorem heeds_market : Site.Reachable shopTypes market [] [marketing] ∧
    ∀ station, market.forest.Heeds station ∧
      ¬(market.forest.changed (intrusion station)).Heeds station := by
  refine ⟨reachable_market, fun station => ?_⟩
  obtain ⟨hkept, hexact⟩ := Site.Reachable.heeds reachable_market station
  have hheeds := hkept (not_misuses_marketing station)
  refine ⟨hheeds, fun hafter => ?_⟩
  exact (hexact (intrusion station) _ (obtainable_intrusion station) hheeds
    (apply_intrusion station)).1 hafter (intrudes_intrusion station)

/-- The site after somebody has intruded. -/
def intruded (station : Station) : Site := Call.after market (.apply (intrusion station))

theorem reachable_intruded (station : Station) :
    Site.Reachable shopTypes (intruded station) []
      ([marketing] ++ Call.made market (.apply (intrusion station))) :=
  .call (.apply _) reachable_market (obtainable_intrusion station)

/-- The wrong one that has come is at the station now. -/
theorem not_heeds_intruded (station : Station) : ¬(intruded station).forest.Heeds station := by
  have hforest : (intruded station).forest = market.forest.changed (intrusion station) := by
    rw [intruded, Call.after, Site.Action.onForest_of_ok (apply_intrusion station)]
    rfl
  rw [hforest, reachable_market.heeds_apply_iff (obtainable_intrusion station)
    (reachable_market.heeds_of_made (not_misuses_marketing station)) (apply_intrusion station),
    not_not]
  exact intrudes_intrusion station

/-- Sites that have come about with registered types, and in which a node is an instance of an
    interface, an instance of an annotation is a partition, and one is a child. -/
theorem exists_intruded :
    (∃ languages types site past made, TypeRegistry.registerAll .empty languages = .ok types ∧
      Site.Reachable types site past made ∧ ¬site.forest.Heeds .registered) ∧
    (∃ languages types site past made, TypeRegistry.registerAll .empty languages = .ok types ∧
      Site.Reachable types site past made ∧ ¬site.forest.Heeds .top) ∧
    ∃ languages types site past made, TypeRegistry.registerAll .empty languages = .ok types ∧
      Site.Reachable types site past made ∧ ¬site.forest.Heeds .child :=
  ⟨⟨_, _, _, _, _, registerAll_shop, reachable_intruded _, not_heeds_intruded _⟩,
    ⟨_, _, _, _, _, registerAll_shop, reachable_intruded _, not_heeds_intruded _⟩,
    ⟨_, _, _, _, _, registerAll_shop, reachable_intruded _, not_heeds_intruded _⟩⟩

end Examples

end DeltaForest
