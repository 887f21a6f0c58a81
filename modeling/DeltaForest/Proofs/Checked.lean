import DeltaForest.Plan
import DeltaForest.Proofs.Surgery

/-!
# What a passed check says

Planning an edit is a row of checks. Here is for each of them what is known once it has passed, in
terms of the table of nodes: which node stands at a place, whether one is above another, and that
nobody outside refers to a subtree that is to leave.
-/

namespace DeltaForest

section Checks

variable {α : Type} {xs : List α} {a : α} {id expected found : NodeId} {list : NodeList} {i : Nat}

/-- An element is found at its position in the list. -/
theorem elementAt_eq_ok : elementAt xs id list i = .ok a ↔ xs[i]? = some a := by
  rw [elementAt]
  split <;> simp_all

/-- One may insert up to the end of a list. -/
theorem checkInsert_eq_ok : checkInsert xs id list i = .ok () ↔ i ≤ xs.length := by
  rw [checkInsert]
  split <;> simp_all

theorem checkExpected_eq_ok : checkExpected expected found = .ok () ↔ expected = found := by
  rw [checkExpected]
  split <;> simp_all

variable {n : Node} {info : FeatureInfo} {count : Nat} {v : Value} {e : Entry}

/-- There is room for one more if there may be many or if there is none. -/
theorem checkRoom_eq_ok :
    checkRoom n info count = .ok () ↔ (info.isMultiple = false → count = 0) := by
  rw [checkRoom]
  cases info.isMultiple <;> simp

/-- A property takes values of its data type, if it has one. -/
theorem checkValue_eq_ok :
    checkValue info v = .ok () ↔ ∃ type, info.dataType? = some type ∧ v.conforms type = true := by
  rw [checkValue]
  cases info.dataType? with
  | none => simp
  | some type => cases v.conforms type <;> simp

theorem Entry.check_eq_ok : e.check = .ok () ↔ e.isEmpty = false := by
  rw [check]
  cases e.isEmpty <;> simp

end Checks

namespace Node

variable {n : Node} {child : NodeId} {c : Handle} {i : Nat}

/-- The place at which a child is found is one at which it is. -/
theorem getElem?_of_findChild? (h : n.findChild? child = some (c, i)) :
    (n.children c)[i]? = some child := by
  obtain ⟨⟨c', ids⟩, hmem, hfound⟩ := List.exists_of_findSome?_eq_some h
  obtain ⟨j, hj, heq⟩ := Option.map_eq_some_iff.1 hfound
  obtain ⟨rfl, rfl⟩ := Prod.mk.inj heq
  rw [Std.ExtTreeMap.mem_toList_iff_getElem?_eq_some] at hmem
  rw [children, hmem, Option.getD_some]
  obtain ⟨hi, hget, -⟩ := List.findIdx?_eq_some_iff_getElem.1 hj
  rw [List.getElem?_eq_getElem hi, Option.some.injEq]
  simpa using hget

end Node

namespace Model

variable {m : Model} {n : Node} {info : FeatureInfo} {kind : ElementKind} {id child root : NodeId}
variable {feature : Handle} {place : Place Handle} {spot : AnnotationPlace} {tree : Subtree}

/-- A node is found under its id. -/
theorem node_eq_ok : m.node id = .ok n ↔ m.nodes[id]? = some n := NodeTable.get_eq_ok

/-- A feature is applicable to a node if the classifier of the node declares it. -/
theorem checkApplicable_eq_ok :
    m.checkApplicable n info = .ok () ↔ m.types.declares n.classifier info.handle = true := by
  rw [checkApplicable]
  split <;> simp_all

/-- A slot is a feature of a kind on a registered node that may have it. -/
theorem slot_eq_ok : m.slot kind id feature = .ok (n, info) ↔
    m.types.featureAt kind feature = .ok info ∧ m.nodes[id]? = some n ∧
      m.types.declares n.classifier info.handle = true := by
  simp only [slot, bind_eq_ok, pure_eq_ok, node_eq_ok, Except.ok.injEq, Prod.mk.injEq]
  constructor
  · rintro ⟨info, hinfo, n, hn, ⟨⟩, happ, rfl, rfl⟩
    exact ⟨hinfo, hn, checkApplicable_eq_ok.1 happ⟩
  · rintro ⟨hinfo, hn, happ⟩
    exact ⟨info, hinfo, n, hn, (), checkApplicable_eq_ok.2 happ, rfl, rfl⟩

/-! ## What may enter -/

section Enter

variable {h : Handle} {v : Value} {count : Nat} {e : Entry}

/-- An entry says something, and its target is there if it has one. -/
theorem checkEntry_eq_ok : m.checkEntry e = .ok () ↔
    e.isEmpty = false ∧ ∀ x, e.target = some x → x ∈ m.nodes := by
  simp only [checkEntry, bind_eq_ok, exists_unit, Entry.check_eq_ok]
  refine and_congr_right fun _ => ?_
  cases e.target <;> simp [bind_eq_ok, node_eq_ok, mem_iff_exists]

/-- An annotation is of a classifier for annotations. -/
theorem checkAnnotation_eq_ok : m.checkAnnotation n = .ok () ↔
    ∃ info, m.types.classifierAt n.classifier = .ok info ∧
      info.kind = ClassifierKind.annotation := by
  simp only [bind_eq_ok, checkAnnotation]
  refine exists_congr fun info => and_congr_right fun _ => ?_
  split <;> simp_all

/-- A property on a node that comes is declared, and its value is one of its type. -/
theorem checkNewProperty_eq_ok : m.checkNewProperty n h v = .ok () ↔
    ∃ info, m.types.featureAt .property h = .ok info ∧
      m.types.declares n.classifier info.handle = true ∧ checkValue info v = .ok () := by
  simp only [checkNewProperty, bind_eq_ok, exists_unit, checkApplicable_eq_ok]

/-- A list on a node that comes is declared, and a feature for one has no more than one in it. -/
theorem checkNewList_eq_ok : m.checkNewList kind n h count = .ok () ↔
    ∃ info, m.types.featureAt kind h = .ok info ∧
      m.types.declares n.classifier info.handle = true ∧
        (info.isMultiple = false → count ≤ 1) := by
  simp only [checkNewList, bind_eq_ok, exists_unit, checkApplicable_eq_ok]
  refine exists_congr fun info => and_congr_right fun _ => and_congr_right fun _ => ?_
  split
  · next hcount => simp [checkRoom_eq_ok, Nat.not_le_of_lt hcount]
  · next hcount => simp [Nat.le_of_not_lt hcount]

/-- The target of an entry that comes may come along with it. -/
theorem checkNewEntry_eq_ok {coming : List NodeId} : m.checkNewEntry coming e = .ok () ↔
    e.isEmpty = false ∧ ∀ x, e.target = some x → x ∈ coming ∨ x ∈ m.nodes := by
  simp only [checkNewEntry, bind_eq_ok, exists_unit, Entry.check_eq_ok]
  refine and_congr_right fun _ => ?_
  cases e.target with
  | none => simp
  | some x =>
    simp only [Option.some.injEq, forall_eq']
    by_cases hx : x ∈ coming
    · simp [hx]
    · by_cases hm : x ∈ m.nodes <;> simp [hx, hm]

end Enter

/-! ## Places -/

/-- What is in a slot is who sits in the seat. -/
theorem seated_of_slot {n : Node} {info : FeatureInfo}
    (h : m.slot .containment place.owner place.feature = .ok (n, info)) :
    place.owner ∈ m.nodes ∧
      m.nodes.seated place.seat.owner place.seat.feature = n.children place.feature := by
  have hn := (slot_eq_ok.1 h).2.1
  exact ⟨mem_of_lookup hn, NodeTable.seated_eq hn⟩

/-- The annotations of a node are those who sit in the seat for annotations. -/
theorem seated_of_node {spot : AnnotationPlace} {n : Node} (hn : m.nodes[spot.owner]? = some n) :
    m.nodes.seated spot.seat.owner spot.seat.feature = n.annotations :=
  NodeTable.seated_eq hn

/-- A child stands at a place if it is found there in the slot. -/
theorem childAt_eq_ok : m.childAt place child = .ok () ↔
    ∃ n info, m.slot .containment place.owner place.feature = .ok (n, info) ∧
      (n.children place.feature)[place.index]? = some child := by
  simp only [childAt, bind_eq_ok, elementAt_eq_ok, checkExpected_eq_ok, Prod.exists]
  constructor
  · rintro ⟨n, info, hslot, found, hfound, rfl⟩
    exact ⟨n, info, hslot, hfound⟩
  · rintro ⟨n, info, hslot, hfound⟩
    exact ⟨n, info, hslot, _, hfound, rfl⟩

/-- A child that stands at a place sits in the seat. -/
theorem at?_of_childAt (h : m.childAt place child = .ok ()) :
    m.nodes.at? place.seat = some child := by
  obtain ⟨n, info, hslot, hfound⟩ := childAt_eq_ok.1 h
  rw [NodeTable.at?, Place.seat, NodeTable.seated_eq (slot_eq_ok.1 hslot).2.1]
  exact hfound

/-- An annotation stands at a place if it sits in the seat. -/
theorem annotationAt_eq_ok :
    m.annotationAt spot child = .ok () ↔ m.nodes.at? spot.seat = some child := by
  simp only [annotationAt, bind_eq_ok, elementAt_eq_ok, checkExpected_eq_ok, node_eq_ok]
  constructor
  · rintro ⟨n, hn, found, hfound, rfl⟩
    rw [NodeTable.at?, AnnotationPlace.seat, NodeTable.seated_eq hn]
    exact hfound
  · intro h
    obtain ⟨n, hn⟩ := mem_iff_exists.1 (NodeTable.mem_of_at? h)
    rw [NodeTable.at?, NodeTable.seated_eq hn] at h
    exact ⟨n, hn, _, h, rfl⟩

/-- A child is located in the node above, if that knows it. -/
theorem locateChild_iff : m.locateChild child = .ok place ↔
    ∃ n o, m.nodes[child]? = some n ∧ n.parent = some place.owner ∧
      m.nodes[place.owner]? = some o ∧ o.findChild? child = some (place.feature, place.index) := by
  simp only [locateChild, bind_eq_ok, node_eq_ok, exists_and_left]
  refine exists_congr fun n => and_congr_right fun _ => ?_
  cases n.parent with
  | none => simp
  | some owner =>
    simp only [bind_eq_ok, node_eq_ok, Option.some.injEq]
    constructor
    · rintro ⟨o, ho, h⟩
      split at h
      · next feature index hfound =>
        cases h
        exact ⟨rfl, o, ho, hfound⟩
      · simp at h
    · rintro ⟨rfl, o, ho, hfound⟩
      exact ⟨o, ho, by rw [hfound]; rfl⟩

/-- An annotation is located in the node above, if that knows it. -/
theorem locateAnnotation_iff : m.locateAnnotation child = .ok spot ↔
    ∃ n o, m.nodes[child]? = some n ∧ n.parent = some spot.owner ∧
      m.nodes[spot.owner]? = some o ∧ o.annotationIndex? child = some spot.index := by
  simp only [Model.locateAnnotation, bind_eq_ok, node_eq_ok, exists_and_left]
  refine exists_congr fun n => and_congr_right fun _ => ?_
  cases n.parent with
  | none => simp
  | some owner =>
    simp only [bind_eq_ok, node_eq_ok, Option.some.injEq]
    constructor
    · rintro ⟨o, ho, h⟩
      split at h
      · next index hfound =>
        cases h
        exact ⟨rfl, o, ho, hfound⟩
      · simp at h
    · rintro ⟨rfl, o, ho, hfound⟩
      exact ⟨o, ho, by rw [hfound]; rfl⟩

/-- A child sits where it is located. -/
theorem at?_of_locateChild (h : m.locateChild child = .ok place) :
    m.nodes.at? place.seat = some child := by
  obtain ⟨n, o, -, -, ho, hfound⟩ := locateChild_iff.1 h
  rw [NodeTable.at?, Place.seat, NodeTable.seated_eq ho]
  exact Node.getElem?_of_findChild? hfound

/-- An annotation sits where it is located. -/
theorem at?_of_locateAnnotation (h : m.locateAnnotation child = .ok spot) :
    m.nodes.at? spot.seat = some child := by
  obtain ⟨n, o, -, -, ho, hfound⟩ := locateAnnotation_iff.1 h
  obtain ⟨hi, hget, -⟩ := List.findIdx?_eq_some_iff_getElem.1 hfound
  rw [NodeTable.at?, AnnotationPlace.seat, NodeTable.seated_eq ho, Node.seated,
    List.getElem?_eq_getElem hi, Option.some.injEq]
  simpa using hget

/-- The walk upwards from the target decides whether it is below the moved node. -/
theorem checkNotBelow_eq_ok (ht : m.nodes.Treelike) :
    m.checkNotBelow child id = .ok () ↔ ¬Above m.nodes.above? child id := by
  rw [checkNotBelow, ← ht.isAncestorOrSelf_iff]
  split <;> simp_all

/-- The walk upwards from the moved node decides whether it is below the one that goes. -/
theorem checkNotReplacingOwner_eq_ok (ht : m.nodes.Treelike) :
    m.checkNotReplacingOwner child id = .ok () ↔ ¬Above m.nodes.above? id child := by
  rw [checkNotReplacingOwner, ← ht.isAncestorOrSelf_iff]
  split <;> simp_all

/-- The entry at a place of a reference. -/
theorem entryAt_eq_ok {e : Entry} : m.entryAt place = .ok e ↔
    ∃ n info, m.slot .reference place.owner place.feature = .ok (n, info) ∧
      (n.entries place.feature)[place.index]? = some e := by
  simp only [entryAt, bind_eq_ok, elementAt_eq_ok, Prod.exists]

/-! ## Subtrees -/

/-- A subtree may leave if nobody outside refers to it. -/
theorem leaving_eq_ok : m.leaving root = .ok tree ↔ m.nodes.collect root = .ok tree ∧
    ∀ (k : NodeId) (n : Node), m.nodes[k]? = some n → k ∉ tree.nodes.map Node.id →
      ∀ x ∈ n.targets, x ∉ tree.nodes.map Node.id := by
  -- No node outside has a target inside.
  have hnone (s : Subtree) :
      (m.nodes.toList.filter fun p => p.1 ∉ s.nodes.map Node.id).findSome? (fun p =>
        (p.2.targets.find? (· ∈ s.nodes.map Node.id)).map (·, p.1)) = none ↔
      ∀ (k : NodeId) (n : Node), m.nodes[k]? = some n → k ∉ s.nodes.map Node.id →
        ∀ x ∈ n.targets, x ∉ s.nodes.map Node.id := by
    simp only [List.findSome?_eq_none_iff, List.mem_filter, Prod.forall,
      Std.ExtTreeMap.mem_toList_iff_getElem?_eq_some, Option.map_eq_none_iff, List.find?_eq_none,
      decide_eq_true_eq, and_imp]
  simp only [leaving, bind_eq_ok]
  constructor
  · rintro ⟨s, hs, h⟩
    split at h
    · simp at h
    · next hout =>
      obtain rfl : s = tree := by simpa using h
      exact ⟨hs, (hnone s).1 hout⟩
  · rintro ⟨hs, hout⟩
    refine ⟨tree, hs, ?_⟩
    simp only [(hnone tree).2 hout]
    rfl

/-- A node may come if all that is on it is as its classifier has it and its targets are there or
    come along. -/
theorem checkNewNode_eq_ok {n : Node} : m.checkNewNode tree n = .ok () ↔
    (∃ info, m.types.classifierAt n.classifier = .ok info) ∧
      (∀ p v, n.properties[p]? = some v → m.checkNewProperty n p v = .ok ()) ∧
      (∀ c ids, n.containments[c]? = some ids →
        m.checkNewList .containment n c ids.length = .ok ()) ∧
      (∀ r es, n.references[r]? = some es → m.checkNewList .reference n r es.length = .ok () ∧
        ∀ e ∈ es, m.checkNewEntry (tree.nodes.map Node.id) e = .ok ()) ∧
      ∀ id ∈ n.annotations, ∀ a, tree.nodes.find? (·.id = id) = some a →
        m.checkAnnotation a = .ok () := by
  simp only [checkNewNode, bind_eq_ok, exists_unit, forM_eq_ok, Prod.forall,
    Std.ExtTreeMap.mem_toList_iff_getElem?_eq_some, exists_and_right]
  refine and_congr_right fun _ => and_congr_right fun _ => and_congr_right fun _ =>
    and_congr_right fun _ => forall₂_congr fun id _ => ?_
  cases tree.nodes.find? (·.id = id) <;> simp

/-- A subtree may come if none of its ids is taken and each of its nodes may come. -/
theorem checkNew_eq_ok : m.checkNew tree = .ok () ↔
    m.nodes.Vacant tree ∧ ∀ n ∈ tree.nodes, m.checkNewNode tree n = .ok () := by
  simp only [checkNew, bind_eq_ok, exists_unit, forM_eq_ok, NodeTable.checkVacant_eq_ok]

/-- Where a subtree may come there is room for its ids. -/
theorem vacant_of_checkNew (h : m.checkNew tree = .ok ()) : m.nodes.Vacant tree :=
  (checkNew_eq_ok.1 h).1

end Model

end DeltaForest
