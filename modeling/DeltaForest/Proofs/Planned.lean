import DeltaForest.Proofs.Planners
import DeltaForest.Proofs.Subjects

/-!
# What a planned change says

A change that planning comes to again in the present state fits that state: the places that it
names hold what it says, the subtrees that come are free to come and the ones that go are free to
go. `Change.Fits` says this change by change, and `fits_of_replan` that planning makes sure of it.
What planning asks for besides, for the sake of the types of the nodes, is `Change.Permitted`.
-/

namespace DeltaForest

theorem Shift.eq_of_between {φ : Type} [DecidableEq φ] {shift : Shift φ} {source : Place φ}
    (h : Shift.between shift.target source = shift) :
    source = shift.source ∧ shift = .between shift.target shift.source := by
  have hsource : source = shift.source := by rw [← h, source_between]
  exact ⟨hsource, by rw [← hsource, h]⟩

theorem AnnotationShift.eq_of_between {shift : AnnotationShift} {source : AnnotationPlace}
    (h : AnnotationShift.between shift.target source = shift) :
    source = shift.source ∧ shift = .between shift.target shift.source := by
  have hsource : source = shift.source := by rw [← h, source_between]
  exact ⟨hsource, by rw [← hsource, h]⟩

/-- What a change says of the state that it is made in. -/
def Change.Fits (m : Model) : Change → Prop
  | partitionAdded tree =>
    (∃ info, m.types.classifierAt tree.root.classifier = .ok info) ∧ m.checkNew tree = .ok ()
  | partitionDeleted tree =>
    (∃ n, m.nodes[tree.root.id]? = some n ∧ n.parent = none) ∧
      m.leaving tree.root.id = .ok tree
  | classifierChanged id new old =>
    (∃ info, m.types.classifierAt new = .ok info) ∧
      ∃ n, m.nodes[id]? = some n ∧ n.classifier = old
  | propertyAdded id property new | propertyChanged id property new _ =>
    ∃ n info, m.slot .property id property = .ok (n, info) ∧ checkValue info new = .ok ()
  | propertyDeleted id property old =>
    ∃ n info, m.slot .property id property = .ok (n, info) ∧ n.property? property = some old
  | childAdded place new =>
    (∃ n info, m.slot .containment place.owner place.feature = .ok (n, info) ∧
      place.index ≤ (n.children place.feature).length) ∧ m.checkNew new = .ok ()
  | childDeleted place old =>
    m.childAt place old.root.id = .ok () ∧ m.leaving old.root.id = .ok old
  | childReplaced place new old =>
    m.childAt place old.root.id = .ok () ∧ m.checkNew new = .ok () ∧
      m.leaving old.root.id = .ok old
  | childMoved shift moved =>
    (∃ n info, m.slot .containment shift.target.owner shift.target.feature = .ok (n, info) ∧
      Landing (shift.source.owner = shift.target.owner ∧
        shift.source.feature = shift.target.feature)
        (n.children shift.target.feature) shift.target.index) ∧
      m.locateChild moved = .ok shift.source ∧
      m.checkNotBelow moved shift.target.owner = .ok () ∧
      shift = .between shift.target shift.source
  | childMovedAndReplaced shift moved old =>
    m.childAt shift.target old.root.id = .ok () ∧ m.locateChild moved = .ok shift.source ∧
      m.checkNotBelow moved shift.target.owner = .ok () ∧
      m.checkNotReplacingOwner moved old.root.id = .ok () ∧
      m.leaving old.root.id = .ok old ∧ shift = .between shift.target shift.source
  | annotationAdded place new =>
    (∃ n, m.nodes[place.owner]? = some n ∧ place.index ≤ n.annotations.length) ∧
      m.checkNew new = .ok ()
  | annotationDeleted place old =>
    m.annotationAt place old.root.id = .ok () ∧ m.leaving old.root.id = .ok old
  | annotationReplaced place new old =>
    m.annotationAt place old.root.id = .ok () ∧ m.checkNew new = .ok () ∧
      m.leaving old.root.id = .ok old
  | annotationMoved shift moved =>
    (∃ n, m.nodes[shift.target.owner]? = some n ∧
      Landing (shift.source.owner = shift.target.owner) n.annotations shift.target.index) ∧
      m.locateAnnotation moved = .ok shift.source ∧
      m.checkNotBelow moved shift.target.owner = .ok () ∧
      shift = .between shift.target shift.source
  | annotationMovedAndReplaced shift moved old =>
    m.annotationAt shift.target old.root.id = .ok () ∧
      m.locateAnnotation moved = .ok shift.source ∧
      m.checkNotBelow moved shift.target.owner = .ok () ∧
      m.checkNotReplacingOwner moved old.root.id = .ok () ∧
      m.leaving old.root.id = .ok old ∧ shift = .between shift.target shift.source
  | entryAdded place new =>
    (∃ n info, m.slot .reference place.owner place.feature = .ok (n, info) ∧
      place.index ≤ (n.entries place.feature).length) ∧ m.checkEntry new = .ok ()
  | entryDeleted place old => m.entryAt place = .ok old
  | entryChanged place new old => m.entryAt place = .ok old ∧ m.checkEntry new = .ok ()
  | entryMoved shift moved =>
    (∃ n info, m.slot .reference shift.target.owner shift.target.feature = .ok (n, info) ∧
      Landing (shift.source.owner = shift.target.owner ∧
        shift.source.feature = shift.target.feature)
        (n.entries shift.target.feature) shift.target.index) ∧
      m.entryAt shift.source = .ok moved ∧ shift = .between shift.target shift.source
  | entryMovedAndReplaced shift moved old =>
    m.entryAt shift.source = .ok moved ∧ m.entryAt shift.target = .ok old ∧
      shift.source ≠ shift.target ∧ shift = .between shift.target shift.source
  | resolveInfoAdded place _ _ | resolveInfoDeleted place _ _ | resolveInfoChanged place _ _ _
  | targetDeleted place _ _ => ∃ e, m.entryAt place = .ok e
  | targetAdded place new _ | targetChanged place new _ _ =>
    (∃ e, m.entryAt place = .ok e) ∧ new ∈ m.nodes

/-- What is asked of a change beyond that it fits: that a list has room for what is new to it, that
    a node is of the kind that its place is for, that an entry keeps one of its halves. -/
def Change.Permitted (m : Model) : Change → Prop
  | partitionAdded tree =>
    ∃ info, m.types.classifierAt tree.root.classifier = .ok info ∧ info.isPartition = true
  | classifierChanged id new _ =>
    ∃ n, m.nodes[id]? = some n ∧ ∀ h ∈ Model.setFeatures n, m.types.declares new h = true
  | childAdded place _ =>
    ∃ n info, m.slot .containment place.owner place.feature = .ok (n, info) ∧
      checkRoom n info (n.children place.feature).length = .ok ()
  | childMoved shift _ =>
    ∃ n info, m.slot .containment shift.target.owner shift.target.feature = .ok (n, info) ∧
      (¬(shift.source.owner = shift.target.owner ∧ shift.source.feature = shift.target.feature) →
        checkRoom n info (n.children shift.target.feature).length = .ok ())
  | annotationAdded _ new | annotationReplaced _ new _ => m.checkAnnotation new.root = .ok ()
  | entryAdded place _ =>
    ∃ n info, m.slot .reference place.owner place.feature = .ok (n, info) ∧
      checkRoom n info (n.entries place.feature).length = .ok ()
  | entryMoved shift _ =>
    ∃ n info, m.slot .reference shift.target.owner shift.target.feature = .ok (n, info) ∧
      (¬(shift.source.owner = shift.target.owner ∧ shift.source.feature = shift.target.feature) →
        checkRoom n info (n.entries shift.target.feature).length = .ok ())
  | resolveInfoDeleted place _ _ => ∃ e, m.entryAt place = .ok e ∧ e.target.isSome
  | targetDeleted place _ _ => ∃ e, m.entryAt place = .ok e ∧ e.resolveInfo.isSome
  | _ => True

namespace Model

variable {m : Model} {c : Change}

/-- A partition that comes is free to come, one that goes is free to go, and a classifier changes
    from the one that the node has. -/
theorem fits_of_replan_node (hs : c.subject = .node) (h : m.replan c = .ok c) : c.Fits m := by
  -- Of what the planner has checked the room and the kinds are left to `Permitted`.
  cases c <;> cases hs
  case partitionAdded tree =>
    obtain ⟨info, hinfo, -, hnew, -⟩ := planAddPartition_eq_ok.1 h
    exact ⟨⟨info, hinfo⟩, hnew⟩
  case partitionDeleted tree =>
    obtain ⟨n, hn, hparent, gone, hleaving, hc⟩ := planDeletePartition_eq_ok.1 h
    obtain rfl := Change.partitionDeleted.inj hc
    exact ⟨⟨n, hn, hparent⟩, hleaving⟩
  case classifierChanged id new old =>
    obtain ⟨info, n, hinfo, hn, -, hc⟩ := planChangeClassifier_eq_ok.1 h
    obtain ⟨-, -, rfl⟩ := Change.classifierChanged.inj hc
    exact ⟨⟨info, hinfo⟩, n, hn, rfl⟩

/-- A value that is set may be held by the property, and a value that goes is the present one. -/
theorem fits_of_replan_property (hs : c.subject = .property) (h : m.replan c = .ok c) :
    c.Fits m := by
  cases c <;> cases hs
  case propertyAdded id property new =>
    obtain ⟨n, info, hslot, hvalue, -⟩ := planAddProperty_eq_ok.1 h
    exact ⟨n, info, hslot, hvalue⟩
  case propertyDeleted id property old =>
    obtain ⟨v, hv, hc⟩ := planDeleteProperty_eq_ok.1 h
    obtain ⟨-, -, rfl⟩ := Change.propertyDeleted.inj hc
    exact currentValue_eq_ok.1 hv
  case propertyChanged id property new old =>
    obtain ⟨n, info, hslot, hvalue, -⟩ := planChangeProperty_eq_ok.1 h
    exact ⟨n, info, hslot, hvalue⟩

/-- A child that comes finds its place, and one that goes or is moved stands where the change
    says. -/
theorem fits_of_replan_child (hs : c.subject = .child) (h : m.replan c = .ok c) : c.Fits m := by
  cases c <;> cases hs
  case childAdded place new =>
    obtain ⟨n, info, hslot, hi, -, hnew, -⟩ := planAddChild_eq_ok.1 h
    exact ⟨⟨n, info, hslot, hi⟩, hnew⟩
  case childDeleted place old =>
    obtain ⟨hat, gone, hleaving, hc⟩ := planDeleteChild_eq_ok.1 h
    obtain ⟨-, rfl⟩ := Change.childDeleted.inj hc
    exact ⟨hat, hleaving⟩
  case childReplaced place new old =>
    obtain ⟨hat, hnew, gone, hleaving, hc⟩ := planReplaceChild_eq_ok.1 h
    obtain ⟨-, -, rfl⟩ := Change.childReplaced.inj hc
    exact ⟨hat, hnew, hleaving⟩
  -- The move names the source that the planner has found.
  case childMoved shift moved =>
    obtain ⟨n, info, source, hslot, hsource, hbelow, hland, -, hc⟩ := planMoveChild_eq_ok.1 h
    obtain ⟨rfl, hshift⟩ := Shift.eq_of_between (Change.childMoved.inj hc).1
    exact ⟨⟨n, info, hslot, hland⟩, hsource, hbelow, hshift⟩
  case childMovedAndReplaced shift moved old =>
    obtain ⟨source, gone, hat, hsource, hbelow, howner, hleaving, hc⟩ :=
      planMoveAndReplaceChild_eq_ok.1 h
    obtain ⟨hbetween, -, rfl⟩ := Change.childMovedAndReplaced.inj hc
    obtain ⟨rfl, hshift⟩ := Shift.eq_of_between hbetween
    exact ⟨hat, hsource, hbelow, howner, hleaving, hshift⟩

/-- An annotation that comes finds its place, and one that goes or is moved stands where the change
    says. -/
theorem fits_of_replan_annotation (hs : c.subject = Subject.annotation) (h : m.replan c = .ok c) :
    c.Fits m := by
  cases c <;> cases hs
  case annotationAdded place new =>
    obtain ⟨n, hn, hi, -, hnew, -⟩ := planAddAnnotation_eq_ok.1 h
    exact ⟨⟨n, hn, hi⟩, hnew⟩
  case annotationDeleted place old =>
    obtain ⟨hat, gone, hleaving, hc⟩ := planDeleteAnnotation_eq_ok.1 h
    obtain ⟨-, rfl⟩ := Change.annotationDeleted.inj hc
    exact ⟨hat, hleaving⟩
  case annotationReplaced place new old =>
    obtain ⟨hat, -, hnew, gone, hleaving, hc⟩ := planReplaceAnnotation_eq_ok.1 h
    obtain ⟨-, -, rfl⟩ := Change.annotationReplaced.inj hc
    exact ⟨hat, hnew, hleaving⟩
  case annotationMoved shift moved =>
    obtain ⟨n, source, hn, hsource, hbelow, hland, hc⟩ := planMoveAnnotation_eq_ok.1 h
    obtain ⟨rfl, hshift⟩ := AnnotationShift.eq_of_between (Change.annotationMoved.inj hc).1
    exact ⟨⟨n, hn, hland⟩, hsource, hbelow, hshift⟩
  case annotationMovedAndReplaced shift moved old =>
    obtain ⟨source, gone, hat, hsource, hbelow, howner, hleaving, hc⟩ :=
      planMoveAndReplaceAnnotation_eq_ok.1 h
    obtain ⟨hbetween, -, rfl⟩ := Change.annotationMovedAndReplaced.inj hc
    obtain ⟨rfl, hshift⟩ := AnnotationShift.eq_of_between hbetween
    exact ⟨hat, hsource, hbelow, howner, hleaving, hshift⟩

/-- An entry that comes finds its place, and one that goes or is moved is the present one. -/
theorem fits_of_replan_entry (hs : c.subject = .entry) (h : m.replan c = .ok c) : c.Fits m := by
  cases c <;> cases hs
  case entryAdded place new =>
    obtain ⟨n, info, hslot, hi, -, hnew, -⟩ := planAddEntry_eq_ok.1 h
    exact ⟨⟨n, info, hslot, hi⟩, hnew⟩
  case entryDeleted place old =>
    obtain ⟨e, he, hc⟩ := planDeleteEntry_eq_ok.1 h
    obtain ⟨-, rfl⟩ := Change.entryDeleted.inj hc
    exact he
  case entryChanged place new old =>
    obtain ⟨e, he, hnew, hc⟩ := planChangeEntry_eq_ok.1 h
    obtain ⟨-, -, rfl⟩ := Change.entryChanged.inj hc
    exact ⟨he, hnew⟩
  case entryMoved shift moved =>
    obtain ⟨e, n, info, he, hslot, hland, -, hc⟩ := planMoveEntry_eq_ok.1 h
    obtain ⟨hbetween, rfl⟩ := Change.entryMoved.inj hc
    exact ⟨⟨n, info, hslot, hland⟩, he, (Shift.eq_of_between hbetween).2⟩
  case entryMovedAndReplaced shift moved old =>
    obtain ⟨e, e', he, he', hne, hc⟩ := planMoveAndReplaceEntry_eq_ok.1 h
    obtain ⟨hbetween, rfl, rfl⟩ := Change.entryMovedAndReplaced.inj hc
    exact ⟨he, he', hne, (Shift.eq_of_between hbetween).2⟩

/-- There is an entry at the place, and the target that it is to have is there as well. -/
theorem fits_of_replan_half (hs : c.subject = .half) (h : m.replan c = .ok c) : c.Fits m := by
  cases c <;> cases hs
  case resolveInfoAdded place new target =>
    obtain ⟨e, he, -⟩ := planAddResolveInfo_eq_ok.1 h
    exact ⟨e, he⟩
  case resolveInfoDeleted place target old =>
    obtain ⟨e, -, he, -⟩ := planDeleteResolveInfo_eq_ok.1 h
    exact ⟨e, he⟩
  case resolveInfoChanged place new target old =>
    obtain ⟨e, -, he, -⟩ := planChangeResolveInfo_eq_ok.1 h
    exact ⟨e, he⟩
  case targetAdded place new resolveInfo =>
    obtain ⟨e, he, -, hnew, -⟩ := planAddTarget_eq_ok.1 h
    exact ⟨⟨e, he⟩, hnew⟩
  case targetDeleted place resolveInfo old =>
    obtain ⟨e, -, he, -⟩ := planDeleteTarget_eq_ok.1 h
    exact ⟨e, he⟩
  case targetChanged place new resolveInfo old =>
    obtain ⟨e, -, he, -, hnew, -⟩ := planChangeTarget_eq_ok.1 h
    exact ⟨⟨e, he⟩, hnew⟩

/-- A change that planning comes to again fits. -/
theorem fits_of_replan (h : m.replan c = .ok c) : c.Fits m := by
  cases hs : c.subject with
  | node => exact fits_of_replan_node hs h
  | property => exact fits_of_replan_property hs h
  | child => exact fits_of_replan_child hs h
  | annotation => exact fits_of_replan_annotation hs h
  | entry => exact fits_of_replan_entry hs h
  | half => exact fits_of_replan_half hs h

/-- A change that planning comes to again is permitted. -/
theorem permitted_of_replan (h : m.replan c = .ok c) : c.Permitted m := by
  cases c with
  | partitionAdded tree =>
    obtain ⟨info, hinfo, hpartition, -, -⟩ := planAddPartition_eq_ok.1 h
    exact ⟨info, hinfo, hpartition⟩
  | classifierChanged id new old =>
    obtain ⟨info, n, -, hn, hnone, -⟩ := planChangeClassifier_eq_ok.1 h
    refine ⟨n, hn, fun h hmem => ?_⟩
    -- No feature was found that the new classifier does not declare.
    simpa using List.find?_eq_none.1 hnone h hmem
  | childAdded place new =>
    obtain ⟨n, info, hslot, -, hroom, -, -⟩ := planAddChild_eq_ok.1 h
    exact ⟨n, info, hslot, hroom⟩
  | childMoved shift moved =>
    obtain ⟨n, info, source, hslot, -, -, -, hroom, hc⟩ := planMoveChild_eq_ok.1 h
    obtain ⟨rfl, -⟩ := Shift.eq_of_between (Change.childMoved.inj hc).1
    exact ⟨n, info, hslot, hroom⟩
  | annotationAdded place new =>
    obtain ⟨n, -, -, hannotation, -, -⟩ := planAddAnnotation_eq_ok.1 h
    exact hannotation
  | annotationReplaced place new old =>
    obtain ⟨-, hannotation, -⟩ := planReplaceAnnotation_eq_ok.1 h
    exact hannotation
  | entryAdded place new =>
    obtain ⟨n, info, hslot, -, hroom, -, -⟩ := planAddEntry_eq_ok.1 h
    exact ⟨n, info, hslot, hroom⟩
  | entryMoved shift moved =>
    obtain ⟨e, n, info, -, hslot, -, hroom, -⟩ := planMoveEntry_eq_ok.1 h
    exact ⟨n, info, hslot, hroom⟩
  | resolveInfoDeleted place target old =>
    obtain ⟨e, -, he, -, htarget, -⟩ := planDeleteResolveInfo_eq_ok.1 h
    exact ⟨e, he, htarget⟩
  | targetDeleted place resolveInfo old =>
    obtain ⟨e, -, he, -, hinfo, -⟩ := planDeleteTarget_eq_ok.1 h
    exact ⟨e, he, hinfo⟩
  | _ => trivial

end Model

end DeltaForest
