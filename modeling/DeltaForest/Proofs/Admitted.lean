import DeltaForest.Proofs.Listed

/-!
# What is read and may not enter

A chunk is checked twice: when it is read, pointer by pointer and text by text, and when what has
been read is to enter, handle by handle and value by value. The second check finds hardly anything
that the first one has let pass. The nodes that have been read are new, their features are declared,
their values are of the type, their entries say something, and what they refer to is there or comes
with them (`Subtree.Received`). Only two things are looked at for the first time: that a feature for
one child or entry has no more than one, and that what is annotated with is an annotation. So the
check fails over one of these or not at all (`Site.Reachable.assesses`).
-/

namespace DeltaForest

/-- A node on which everything is in its place, though there may be too much of it: its features
    are declared, its values are of the type, and its entries say something. -/
structure Node.Declared (types : TypeRegistry) (n : Node) : Prop where
  classifier : ∃ info, types.classifierAt n.classifier = .ok info
  properties : ∀ p v, n.properties[p]? = some v → ∃ info type,
    types.featureAt .property p = .ok info ∧
      types.declares n.classifier info.handle = true ∧ info.dataType? = some type ∧
      v.conforms type = true
  containments : ∀ c ids, n.containments[c]? = some ids → ∃ info,
    types.featureAt .containment c = .ok info ∧ types.declares n.classifier info.handle = true
  references : ∀ r es, n.references[r]? = some es →
    (∃ info, types.featureAt .reference r = .ok info ∧
      types.declares n.classifier info.handle = true) ∧ ∀ e ∈ es, e.isEmpty = false

/-- A subtree all of which has been found to be in order, but for how much of it there is and which
    nodes are annotations. -/
structure Subtree.Received (m : Model) (tree : Subtree) : Prop where
  distinct : (tree.nodes.map Node.id).Nodup
  vacant : m.nodes.Vacant tree
  supplied : m.nodes.Supplied tree
  declared : ∀ n ∈ tree.nodes, n.Declared m.types

/-- What there is against a subtree. -/
inductive Model.Objects (m : Model) (tree : Subtree) : Fault → Prop
  /-- A containment for one child has more. -/
  | children {n : Node} {c : Handle} {info : FeatureInfo} (hn : n ∈ tree.nodes)
      (hinfo : m.types.featureAt .containment c = .ok info) (hone : info.isMultiple = false)
      (hmany : 1 < (n.children c).length) : Objects m tree (.overfull n.id info.pointer)
  /-- A reference with one entry has more. -/
  | entries {n : Node} {r : Handle} {info : FeatureInfo} (hn : n ∈ tree.nodes)
      (hinfo : m.types.featureAt .reference r = .ok info) (hone : info.isMultiple = false)
      (hmany : 1 < (n.entries r).length) : Objects m tree (.overfull n.id info.pointer)
  /-- A node is annotated with one that is no annotation. -/
  | unfit {n a : Node} {info : ClassifierInfo} (hn : n ∈ tree.nodes) (ha : a ∈ tree.nodes)
      (hid : a.id ∈ n.annotations) (hinfo : m.types.classifierAt a.classifier = .ok info)
      (hkind : info.kind ≠ ClassifierKind.annotation) :
      Objects m tree (.kindMismatch info.pointer ElementKind.annotation)

/-! ## What has been read -/

namespace Chunk

variable {types : TypeRegistry} {known : NodeTable} {chunk : Chunk} {item : Item} {n : Node}
  {tree : Subtree}

/-- What is read of an item is in its place. -/
theorem Item.declared_of_toNode (hl : types.Lawful) (h : item.toNode types = .ok n) :
    n.Declared types := by
  obtain ⟨hread, hreadable⟩ := readAs_of_toNode h
  refine ⟨?_, fun p v hv => ?_, fun c ids hids => ?_, fun r es hes => ?_⟩
  · obtain ⟨info, hinfo, hclassifier⟩ := hread.classifier
    exact ⟨info, hclassifier ▸ hl.classifierAt_handle hinfo⟩
  · -- A value was read as the type of its property, so it conforms to that type.
    rw [hread.properties] at hv
    obtain ⟨property, info, hinfo, rfl, hdeclares, -, hcontent⟩ :=
      Listing.exists_readable_of_last? hreadable.properties hv
    obtain ⟨type, htype, hcontent⟩ := Option.bind_eq_some_iff.1 hcontent
    obtain ⟨s, -, hs⟩ := Option.bind_eq_some_iff.1 hcontent
    exact ⟨info, type, hl.featureAt_handle hinfo, hdeclares, htype, Value.conforms_of_ofText? hs⟩
  · rw [hread.containments] at hids
    obtain ⟨containment, info, hinfo, rfl, hdeclares, -, -⟩ :=
      Listing.exists_readable_of_last? hreadable.containments hids
    exact ⟨info, hl.featureAt_handle hinfo, hdeclares⟩
  · rw [hread.references] at hes
    obtain ⟨reference, info, hinfo, rfl, hdeclares, hsound, hcontent⟩ :=
      Listing.exists_readable_of_last? hreadable.references hes
    refine ⟨⟨info, hl.featureAt_handle hinfo, hdeclares⟩, ?_⟩
    rw [Listing.references, Listing.content?_ofLists] at hcontent
    split at hcontent
    · cases hcontent
    · cases hcontent
      exact hsound

/-- Whatever has been read is in order. -/
theorem received_of_toSubtree {m : Model} (hl : m.types.Lawful)
    (h : chunk.toSubtree m.types m.nodes = .ok tree) : tree.Received m := by
  obtain ⟨nodes, hnodes, hvacant, hsupplied, hlist⟩ := toSubtree_eq_ok.1 h
  obtain ⟨root, hgrown⟩ := Subtree.ofList_eq_ok.1 hlist
  -- A node of the subtree is one of those that have been read, with a link to its owner.
  have hread (n : Node) (hn : n ∈ tree.nodes) := Subtree.exists_of_mem_ofList hlist hn
  refine ⟨hgrown.distinct_nodes, fun n hn => ?_, fun n hn x hx => ?_, fun n hn => ?_⟩
  · obtain ⟨n', hn', heq⟩ := hread n hn
    rw [heq]
    exact hvacant n' hn'
  · obtain ⟨n', hn', heq⟩ := hread n hn
    rw [heq] at hx
    rw [hgrown.perm_ids.mem_iff]
    exact hsupplied n' hn' x hx
  · obtain ⟨n', hn', heq⟩ := hread n hn
    obtain ⟨item, -, hitem⟩ := exists_of_mem_mapM hnodes n' hn'
    have hdeclared := Item.declared_of_toNode hl hitem
    rw [heq]
    exact ⟨hdeclared.classifier, hdeclared.properties, hdeclared.containments,
      hdeclared.references⟩

end Chunk

/-! ## What is checked again -/

namespace Model

variable {m : Model} {tree : Subtree} {n : Node} {fault : Fault} {kind : ElementKind} {f : Handle}
  {info : FeatureInfo}

/-- A list of a feature that is declared can only be too long. -/
theorem eq_overfull_of_checkNewList {count : Nat} (hinfo : m.types.featureAt kind f = .ok info)
    (hdeclares : m.types.declares n.classifier info.handle = true)
    (h : m.checkNewList kind n f count = .error fault) :
    fault = .overfull n.id info.pointer ∧ info.isMultiple = false ∧ 1 < count := by
  rw [checkNewList, hinfo, ok_bind, checkApplicable_eq_ok.2 hdeclares, ok_bind] at h
  split at h
  · next hcount =>
    rw [checkRoom] at h
    split at h
    · cases h
    · next hroom =>
      cases h
      exact ⟨rfl, by simpa using hroom, hcount⟩
  · cases h

/-- A node that is no annotation is refused as one, if its classifier is known. -/
theorem eq_kindMismatch_of_checkAnnotation {info : ClassifierInfo}
    (hinfo : m.types.classifierAt n.classifier = .ok info)
    (h : m.checkAnnotation n = .error fault) :
    fault = .kindMismatch info.pointer ElementKind.annotation ∧
      info.kind ≠ ClassifierKind.annotation := by
  unfold checkAnnotation at h
  rw [hinfo, ok_bind] at h
  split at h
  · cases h
  · next hkind =>
    cases h
    exact ⟨rfl, hkind⟩

/-- Whatever a node that has been received is refused for speaks against the subtree. -/
theorem objects_of_checkNewNode (hreceived : tree.Received m) (hn : n ∈ tree.nodes)
    (h : m.checkNewNode tree n = .error fault) : m.Objects tree fault := by
  have hdeclared := hreceived.declared n hn
  obtain ⟨info, hinfo⟩ := hdeclared.classifier
  rw [checkNewNode, hinfo, ok_bind] at h
  -- The steps of the check are taken one after the other; each may be the one that fails.
  rcases bind_eq_error.1 h with h | ⟨_, -, h⟩
  · obtain ⟨⟨p, v⟩, hmem, h⟩ := exists_of_forM_eq_error h
    rw [Std.ExtTreeMap.mem_toList_iff_getElem?_eq_some] at hmem
    obtain ⟨info, type, hinfo, hdeclares, htype, hconforms⟩ := hdeclared.properties p v hmem
    have hok : m.checkNewProperty n p v = .ok () := checkNewProperty_eq_ok.2
      ⟨info, hinfo, hdeclares, checkValue_eq_ok.2 ⟨type, htype, hconforms⟩⟩
    simp [hok] at h
  rcases bind_eq_error.1 h with h | ⟨_, -, h⟩
  · obtain ⟨⟨c, ids⟩, hmem, h⟩ := exists_of_forM_eq_error h
    rw [Std.ExtTreeMap.mem_toList_iff_getElem?_eq_some] at hmem
    obtain ⟨info, hinfo, hdeclares⟩ := hdeclared.containments c ids hmem
    obtain ⟨rfl, hone, hmany⟩ := eq_overfull_of_checkNewList hinfo hdeclares h
    exact .children hn hinfo hone (by rwa [Node.children, hmem])
  rcases bind_eq_error.1 h with h | ⟨_, -, h⟩
  · obtain ⟨⟨r, es⟩, hmem, h⟩ := exists_of_forM_eq_error h
    rw [Std.ExtTreeMap.mem_toList_iff_getElem?_eq_some] at hmem
    obtain ⟨⟨info, hinfo, hdeclares⟩, htelling⟩ := hdeclared.references r es hmem
    rcases bind_eq_error.1 h with h | ⟨_, -, h⟩
    · obtain ⟨rfl, hone, hmany⟩ := eq_overfull_of_checkNewList hinfo hdeclares h
      exact .entries hn hinfo hone (by rwa [Node.entries, hmem])
    · obtain ⟨e, he, h⟩ := exists_of_forM_eq_error h
      have hok : m.checkNewEntry (tree.nodes.map Node.id) e = .ok () := by
        refine checkNewEntry_eq_ok.2 ⟨htelling e he, fun x hx => hreceived.supplied n hn x ?_⟩
        exact (Node.mem_targets n).2 ⟨r, e, by rwa [Node.entries, hmem], hx⟩
      simp [hok] at h
  · obtain ⟨id, hid, h⟩ := exists_of_forM_eq_error h
    split at h
    · next a hfind =>
      have ha := List.mem_of_find?_eq_some hfind
      obtain rfl : a.id = id := by simpa using List.find?_some hfind
      obtain ⟨info, hinfo⟩ := (hreceived.declared a ha).classifier
      obtain ⟨rfl, hkind⟩ := eq_kindMismatch_of_checkAnnotation hinfo h
      exact .unfit hn ha hid hinfo hkind
    · cases h

/-- Whatever a subtree that has been received is refused for speaks against it. -/
theorem objects_of_checkNew (hreceived : tree.Received m) (h : m.checkNew tree = .error fault) :
    m.Objects tree fault := by
  rcases bind_eq_error.1 h with h | ⟨_, -, h⟩
  · rw [NodeTable.checkVacant_eq_ok.2 hreceived.vacant] at h
    cases h
  · obtain ⟨n, hn, h⟩ := exists_of_forM_eq_error h
    exact objects_of_checkNewNode hreceived hn h

/-- A subtree that is let in has nothing against it. -/
theorem not_objects_of_checkNew (hdistinct : (tree.nodes.map Node.id).Nodup)
    (h : m.checkNew tree = .ok ()) : ¬m.Objects tree fault := by
  have hnodes (n : Node) (hn : n ∈ tree.nodes) := checkNewNode_eq_ok.1 ((checkNew_eq_ok.1 h).2 n hn)
  have hlist {kind : ElementKind} {n : Node} {f : Handle} {info : FeatureInfo} {count : Nat}
      (hinfo : m.types.featureAt kind f = .ok info) (hone : info.isMultiple = false)
      (hcheck : m.checkNewList kind n f count = .ok ()) : count ≤ 1 := by
    obtain ⟨info', hinfo', -, hcount⟩ := checkNewList_eq_ok.1 hcheck
    obtain rfl : info = info' := Except.ok.inj (hinfo.symm.trans hinfo')
    exact hcount hone
  -- Each objection is about a list or an annotation that some check has seen.
  intro hobjects
  cases hobjects with
  | @children n c info hn hinfo hone hmany =>
    obtain ⟨-, -, hcontainments, -⟩ := hnodes n hn
    cases hids : n.containments[c]? with
    | none => simp [Node.children, hids] at hmany
    | some ids =>
      rw [Node.children, hids] at hmany
      exact Nat.not_lt_of_le (hlist hinfo hone (hcontainments c ids hids)) hmany
  | @entries n r info hn hinfo hone hmany =>
    obtain ⟨-, -, -, hreferences, -⟩ := hnodes n hn
    cases hes : n.references[r]? with
    | none => simp [Node.entries, hes] at hmany
    | some es =>
      rw [Node.entries, hes] at hmany
      exact Nat.not_lt_of_le (hlist hinfo hone (hreferences r es hes).1) hmany
  | @unfit n a info hn ha hid hinfo hkind =>
    obtain ⟨-, -, -, -, hannotations⟩ := hnodes n hn
    have hfind := (NodeTable.find?_eq_some hdistinct).2 ⟨ha, rfl⟩
    obtain ⟨info', hinfo', hkind'⟩ := checkAnnotation_eq_ok.1 (hannotations a.id hid a hfind)
    obtain rfl : info = info' := Except.ok.inj (hinfo.symm.trans hinfo')
    exact hkind hkind'

end Model

/-- How the check of a subtree ends: without a cause, over a feature that has too much, or over an
    annotation that is none. It ends over what there is against the subtree, if there is anything,
    and only then. -/
structure Model.Assesses (m : Model) (tree : Subtree) : Prop where
  answer : m.checkNew tree = .ok () ∨ (∃ n p, m.checkNew tree = .error (.overfull n p)) ∨
    ∃ p, m.checkNew tree = .error (.kindMismatch p ElementKind.annotation)
  objects : ∀ fault, m.checkNew tree = .error fault → m.Objects tree fault
  ok_iff : m.checkNew tree = .ok () ↔ ∀ fault, ¬m.Objects tree fault

/-- Whatever comes about, the check of a subtree that has been read from a chunk ends well or over
    one of the two things that reading does not look at. -/
theorem Site.Reachable.assesses {types : TypeRegistry} {languages : List Language}
    (htypes : TypeRegistry.registerAll .empty languages = .ok types) {site : Site}
    {past : List Checkpoint} {made : List Change} (h : Site.Reachable types site past made)
    {chunk : Chunk} {tree : Subtree}
    (hread : chunk.toSubtree types site.forest.nodes = .ok tree) :
    site.forest.model.Assesses tree := by
  obtain rfl := h.sound.types
  have hreceived := Chunk.received_of_toSubtree (m := site.forest.model)
    (TypeRegistry.lawful_of_registerAll htypes) hread
  have hobjects (fault : Fault) (hcheck : site.forest.model.checkNew tree = .error fault) :=
    Model.objects_of_checkNew hreceived hcheck
  refine ⟨?_, hobjects, fun hok fault => Model.not_objects_of_checkNew hreceived.distinct hok,
    fun hnone => ?_⟩
  · -- A check that fails has an objection, and the fault is the one that goes with it.
    cases hcheck : site.forest.model.checkNew tree with
    | ok => exact .inl rfl
    | error fault =>
      cases hobjects fault hcheck with
      | children | entries => exact .inr (.inl ⟨_, _, rfl⟩)
      | unfit => exact .inr (.inr ⟨_, rfl⟩)
  · cases hcheck : site.forest.model.checkNew tree with
    | ok => rfl
    | error fault => exact absurd (hobjects fault hcheck) (hnone fault)

/-! ## A book of two authors -/

namespace Examples

/-- A book with two entries for its author. -/
def coauthored : Chunk :=
  ⟨[{ id := ⟨"atlas"⟩
      classifier := library.pointer "Book"
      properties := []
      containments := []
      references := [⟨library.pointer "Book-author", [⟨none, some "Anna"⟩, ⟨none, some "Beth"⟩]⟩]
      annotations := []
      parent := none }]⟩

/-- The book as it is read. -/
def atlas : Subtree :=
  ⟨(Node.bare ⟨"atlas"⟩ ⟨5⟩).withEntries ⟨10⟩ [⟨none, some "Anna"⟩, ⟨none, some "Beth"⟩], []⟩

/-- The book can be read where there is a library with another book, and is refused as it has two
    authors. -/
theorem assesses_atlas : Site.Reachable libraryTypes stocked [] [opening, shelving] ∧
    coauthored.toSubtree libraryTypes stocked.forest.nodes = .ok atlas ∧
    stocked.forest.model.Assesses atlas ∧ stocked.forest.model.checkNew atlas =
      .error (.overfull ⟨"atlas"⟩ (library.pointer "Book-author")) := by
  have hread : coauthored.toSubtree libraryTypes stocked.forest.nodes = .ok atlas :=
    Chunk.toSubtree_eq_ok.2 ⟨[atlas.root], by decide +kernel, by decide +kernel, by decide +kernel,
      Subtree.single_of_leaf (by decide +kernel)⟩
  exact ⟨reachable_stocked, hread,
    Site.Reachable.assesses registerAll_library reachable_stocked hread, by decide +kernel⟩

end Examples

end DeltaForest
