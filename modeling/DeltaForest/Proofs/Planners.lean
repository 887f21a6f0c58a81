import DeltaForest.Proofs.Checked

/-!
# What each planner asks for

A planner comes to a change exactly if each of its checks passes. Here this is said once for every
planner, with the change that it comes to, and whatever is known of planned changes is read off
from that.
-/

namespace DeltaForest

/-- A position at which a node or entry can be put that comes from another place: within one list
    there is something at it, in another one it is at the latest behind the end. -/
def Landing {α : Type} (sameList : Prop) (xs : List α) (i : Nat) : Prop :=
  (sameList → i < xs.length) ∧ (¬sameList → i ≤ xs.length)

/-- The checks at the end of a move. Only a list that something is new to needs room for it. -/
theorem landing_eq_ok {α : Type} {sameList : Prop} [Decidable sameList] {xs : List α}
    {id : NodeId} {list : NodeList} {i : Nat} {c c' : Change} (room : Except Fault Unit) :
    (if sameList then do
        let _ ← elementAt xs id list i
        pure c'
      else do
        checkInsert xs id list i
        room
        pure c') = .ok c ↔
      Landing sameList xs i ∧ (¬sameList → room = .ok ()) ∧ c' = c := by
  -- Within one list the place must be taken, in another list it may be its end.
  split
  · next hsame =>
    simp only [bind_eq_ok, elementAt_eq_ok, pure_eq_ok, Except.ok.injEq]
    constructor
    · rintro ⟨a, ha, rfl⟩
      exact ⟨⟨fun _ => (List.getElem?_eq_some_iff.1 ha).1, fun h => absurd hsame h⟩,
        fun h => absurd hsame h, rfl⟩
    · rintro ⟨⟨hi, -⟩, -, rfl⟩
      exact ⟨_, List.getElem?_eq_getElem (hi hsame), rfl⟩
  · next hother =>
    simp only [bind_eq_ok, exists_unit, checkInsert_eq_ok, pure_eq_ok, Except.ok.injEq]
    constructor
    · rintro ⟨hi, hroom, rfl⟩
      exact ⟨⟨fun h => absurd h hother, fun _ => hi⟩, fun _ => hroom, rfl⟩
    · rintro ⟨⟨-, hi⟩, hroom, rfl⟩
      exact ⟨hi hother, hroom hother, rfl⟩

namespace Model

variable {m : Model} {c : Change} {id moved old target : NodeId} {new tree : Subtree}
variable {place source : Place Handle} {spot : AnnotationPlace}

/-! ## Partitions, classifiers and properties -/

/-- A partition may come if its root is of a classifier for partitions and its nodes may come. -/
theorem planAddPartition_eq_ok : m.planAddPartition tree = .ok c ↔
    ∃ info, m.types.classifierAt tree.root.classifier = .ok info ∧ info.isPartition = true ∧
      m.checkNew tree = .ok () ∧ .partitionAdded tree = c := by
  simp only [planAddPartition, bind_eq_ok]
  refine exists_congr fun info => and_congr_right fun _ => ?_
  split
  · next h => simp only [h, bind_eq_ok, exists_unit, pure_eq_ok, Except.ok.injEq, true_and]
  · next h => simp [h]

/-- A partition may go if it has nobody above it and the subtree may leave. -/
theorem planDeletePartition_eq_ok : m.planDeletePartition id = .ok c ↔
    ∃ n, m.nodes[id]? = some n ∧ n.parent = none ∧
      ∃ gone, m.leaving id = .ok gone ∧ .partitionDeleted gone = c := by
  simp only [planDeletePartition, bind_eq_ok, throw_eq_error, error_bind, guard_eq_ok, node_eq_ok,
    pure_eq_ok, Except.ok.injEq, Option.not_isSome_iff_eq_none]

/-- A node may get another classifier if that declares all the features that the node has something
    for. -/
theorem planChangeClassifier_eq_ok {new : Handle} : m.planChangeClassifier id new = .ok c ↔
    ∃ info n, m.types.classifierAt new = .ok info ∧ m.nodes[id]? = some n ∧
      (setFeatures n).find? (!m.types.declares new ·) = none ∧
      .classifierChanged id new n.classifier = c := by
  simp only [planChangeClassifier, bind_eq_ok, node_eq_ok, ← exists_and_left]
  refine exists₂_congr fun info n => and_congr_right fun _ => and_congr_right fun _ => ?_
  split
  · next h => simp [h, bind_eq_ok]
  · next h => simp only [h, pure_eq_ok, Except.ok.injEq, true_and]

section Properties

variable {property : Handle} {v : Value}

/-- A property has a present value if it is in a slot and set. -/
theorem currentValue_eq_ok : m.currentValue id property = .ok v ↔
    ∃ n info, m.slot .property id property = .ok (n, info) ∧ n.property? property = some v := by
  simp only [currentValue, bind_eq_ok, Prod.exists]
  refine exists₂_congr fun n info => and_congr_right fun _ => ?_
  split <;> simp_all

/-- A property gets a value if it has none yet. -/
theorem planAddProperty_eq_ok : m.planAddProperty id property v = .ok c ↔
    ∃ n info, m.slot .property id property = .ok (n, info) ∧ checkValue info v = .ok () ∧
      n.property? property = none ∧ .propertyAdded id property v = c := by
  simp only [planAddProperty, bind_eq_ok, Prod.exists, exists_unit, throw_eq_error, error_bind,
    guard_eq_ok, pure_eq_ok, Except.ok.injEq, Option.not_isSome_iff_eq_none]

/-- A property loses the value that it has. -/
theorem planDeleteProperty_eq_ok : m.planDeleteProperty id property = .ok c ↔
    ∃ v, m.currentValue id property = .ok v ∧ .propertyDeleted id property v = c := by
  simp only [planDeleteProperty, bind_eq_ok, pure_eq_ok, Except.ok.injEq]

/-- A property gets another value in place of the one that it has. -/
theorem planChangeProperty_eq_ok : m.planChangeProperty id property v = .ok c ↔
    ∃ n info, m.slot .property id property = .ok (n, info) ∧ checkValue info v = .ok () ∧
      ∃ old, m.currentValue id property = .ok old ∧ .propertyChanged id property v old = c := by
  simp only [planChangeProperty, bind_eq_ok, Prod.exists, exists_unit, pure_eq_ok,
    Except.ok.injEq]

end Properties

/-! ## Children -/

/-- A child may come if its place is no further than behind the last one, there is room and its
    nodes may come. -/
theorem planAddChild_eq_ok : m.planAddChild place new = .ok c ↔
    ∃ n info, m.slot .containment place.owner place.feature = .ok (n, info) ∧
      place.index ≤ (n.children place.feature).length ∧
      checkRoom n info (n.children place.feature).length = .ok () ∧
      m.checkNew new = .ok () ∧ .childAdded place new = c := by
  simp only [planAddChild, bind_eq_ok, Prod.exists, exists_unit, checkInsert_eq_ok, pure_eq_ok,
    Except.ok.injEq]

/-- A child may go if it stands at the place and the subtree may leave. -/
theorem planDeleteChild_eq_ok : m.planDeleteChild place old = .ok c ↔
    m.childAt place old = .ok () ∧
      ∃ gone, m.leaving old = .ok gone ∧ .childDeleted place gone = c := by
  simp only [planDeleteChild, bind_eq_ok, exists_unit, pure_eq_ok, Except.ok.injEq]

/-- A child may be replaced if the nodes of the other one may come and its own may leave. -/
theorem planReplaceChild_eq_ok : m.planReplaceChild place old new = .ok c ↔
    m.childAt place old = .ok () ∧ m.checkNew new = .ok () ∧
      ∃ gone, m.leaving old = .ok gone ∧ .childReplaced place new gone = c := by
  simp only [planReplaceChild, bind_eq_ok, exists_unit, pure_eq_ok, Except.ok.injEq]

/-- A child may be moved to where it can land, but not below itself. Room is asked for only in a
    list that is new to it. -/
theorem planMoveChild_eq_ok : m.planMoveChild place moved = .ok c ↔
    ∃ n info source, m.slot .containment place.owner place.feature = .ok (n, info) ∧
      m.locateChild moved = .ok source ∧ m.checkNotBelow moved place.owner = .ok () ∧
      Landing (source.owner = place.owner ∧ source.feature = place.feature)
        (n.children place.feature) place.index ∧
      (¬(source.owner = place.owner ∧ source.feature = place.feature) →
        checkRoom n info (n.children place.feature).length = .ok ()) ∧
      .childMoved (.between place source) moved = c := by
  simp only [planMoveChild, bind_eq_ok, Prod.exists, exists_unit, landing_eq_ok, Bool.and_eq_true,
    decide_eq_true_eq, ← exists_and_left]

/-- A child may take the place of another one, but neither below itself nor of one that is above
    it. -/
theorem planMoveAndReplaceChild_eq_ok : m.planMoveAndReplaceChild place moved old = .ok c ↔
    ∃ source gone, m.childAt place old = .ok () ∧ m.locateChild moved = .ok source ∧
      m.checkNotBelow moved place.owner = .ok () ∧
      m.checkNotReplacingOwner moved old = .ok () ∧ m.leaving old = .ok gone ∧
      .childMovedAndReplaced (.between place source) moved gone = c := by
  simp only [planMoveAndReplaceChild, bind_eq_ok, exists_unit, pure_eq_ok, Except.ok.injEq,
    ← exists_and_left]

/-! ## Annotations -/

/-- An annotation may come if it is of a classifier for annotations. There is always room for it. -/
theorem planAddAnnotation_eq_ok : m.planAddAnnotation spot new = .ok c ↔
    ∃ n, m.nodes[spot.owner]? = some n ∧ spot.index ≤ n.annotations.length ∧
      m.checkAnnotation new.root = .ok () ∧ m.checkNew new = .ok () ∧
      .annotationAdded spot new = c := by
  simp only [bind_eq_ok, planAddAnnotation, exists_unit, node_eq_ok, checkInsert_eq_ok, pure_eq_ok,
    Except.ok.injEq]

/-- An annotation may go if it stands at the place and the subtree may leave. -/
theorem planDeleteAnnotation_eq_ok : m.planDeleteAnnotation spot old = .ok c ↔
    m.annotationAt spot old = .ok () ∧
      ∃ gone, m.leaving old = .ok gone ∧ .annotationDeleted spot gone = c := by
  simp only [bind_eq_ok, planDeleteAnnotation, exists_unit, pure_eq_ok, Except.ok.injEq]

/-- An annotation may be replaced by one that is of a classifier for annotations, too. -/
theorem planReplaceAnnotation_eq_ok : m.planReplaceAnnotation spot old new = .ok c ↔
    m.annotationAt spot old = .ok () ∧ m.checkAnnotation new.root = .ok () ∧
      m.checkNew new = .ok () ∧
      ∃ gone, m.leaving old = .ok gone ∧ .annotationReplaced spot new gone = c := by
  simp only [bind_eq_ok, planReplaceAnnotation, exists_unit, pure_eq_ok, Except.ok.injEq]

/-- An annotation may be moved to where it can land, but not below itself. -/
theorem planMoveAnnotation_eq_ok : m.planMoveAnnotation spot moved = .ok c ↔
    ∃ n source, m.nodes[spot.owner]? = some n ∧ m.locateAnnotation moved = .ok source ∧
      m.checkNotBelow moved spot.owner = .ok () ∧
      Landing (source.owner = spot.owner) n.annotations spot.index ∧
      .annotationMoved (.between spot source) moved = c := by
  simp only [bind_eq_ok, planMoveAnnotation, exists_unit, node_eq_ok, ← exists_and_left]
  refine exists₂_congr fun n source => and_congr_right fun _ => and_congr_right fun _ =>
    and_congr_right fun _ => ?_
  -- A node may have any number of annotations.
  refine (landing_eq_ok (.ok ())).trans ?_
  simp

/-- An annotation may take the place of another one under the same conditions as a child. -/
theorem planMoveAndReplaceAnnotation_eq_ok :
    m.planMoveAndReplaceAnnotation spot moved old = .ok c ↔
    ∃ source gone, m.annotationAt spot old = .ok () ∧ m.locateAnnotation moved = .ok source ∧
      m.checkNotBelow moved spot.owner = .ok () ∧
      m.checkNotReplacingOwner moved old = .ok () ∧ m.leaving old = .ok gone ∧
      .annotationMovedAndReplaced (.between spot source) moved gone = c := by
  simp only [bind_eq_ok, planMoveAndReplaceAnnotation, exists_unit, pure_eq_ok, Except.ok.injEq,
    ← exists_and_left]

/-! ## Entries of references -/

section Entries

variable {new : Entry}

/-- An entry may come if its place is no further than behind the last one and there is room. -/
theorem planAddEntry_eq_ok : m.planAddEntry place new = .ok c ↔
    ∃ n info, m.slot .reference place.owner place.feature = .ok (n, info) ∧
      place.index ≤ (n.entries place.feature).length ∧
      checkRoom n info (n.entries place.feature).length = .ok () ∧
      m.checkEntry new = .ok () ∧ .entryAdded place new = c := by
  simp only [planAddEntry, bind_eq_ok, Prod.exists, exists_unit, checkInsert_eq_ok, pure_eq_ok,
    Except.ok.injEq]

/-- The entry that stands at a place may go. -/
theorem planDeleteEntry_eq_ok : m.planDeleteEntry place = .ok c ↔
    ∃ e, m.entryAt place = .ok e ∧ .entryDeleted place e = c := by
  simp only [planDeleteEntry, bind_eq_ok, pure_eq_ok, Except.ok.injEq]

/-- An entry may be changed to one that says something, with a target that is there. -/
theorem planChangeEntry_eq_ok : m.planChangeEntry place new = .ok c ↔
    ∃ e, m.entryAt place = .ok e ∧ m.checkEntry new = .ok () ∧
      .entryChanged place new e = c := by
  simp only [planChangeEntry, bind_eq_ok, exists_unit, pure_eq_ok, Except.ok.injEq]

/-- An entry may be moved to where it can land. Room is asked for only in a list that is new to
    it. -/
theorem planMoveEntry_eq_ok : m.planMoveEntry place source = .ok c ↔
    ∃ e n info, m.entryAt source = .ok e ∧
      m.slot .reference place.owner place.feature = .ok (n, info) ∧
      Landing (source.owner = place.owner ∧ source.feature = place.feature)
        (n.entries place.feature) place.index ∧
      (¬(source.owner = place.owner ∧ source.feature = place.feature) →
        checkRoom n info (n.entries place.feature).length = .ok ()) ∧
      .entryMoved (.between place source) e = c := by
  simp only [planMoveEntry, bind_eq_ok, Prod.exists, landing_eq_ok, Bool.and_eq_true,
    decide_eq_true_eq, ← exists_and_left]

/-- An entry may take the place of another entry, but not its own. -/
theorem planMoveAndReplaceEntry_eq_ok : m.planMoveAndReplaceEntry place source = .ok c ↔
    ∃ e e', m.entryAt source = .ok e ∧ m.entryAt place = .ok e' ∧ source ≠ place ∧
      .entryMovedAndReplaced (.between place source) e e' = c := by
  simp only [planMoveAndReplaceEntry, bind_eq_ok, throw_eq_error, error_bind, guard_eq_ok,
    pure_eq_ok, Except.ok.injEq, ← exists_and_left]

end Entries

/-! ## Halves of entries -/

section Halves

variable {info : String}

/-- Finding something set that should not be comes to a fault in any case. -/
theorem alreadySet_ne_ok {α : Type} {a : α} : m.alreadySet place ≠ .ok a := by
  simp [alreadySet, bind_eq_ok]

/-- Finding something unset that should be set comes to a fault in any case. -/
theorem unset_ne_ok {α : Type} {a : α} : m.unset place ≠ .ok a := by
  simp [unset, bind_eq_ok]

/-- An entry gets resolve info if it has none yet. -/
theorem planAddResolveInfo_eq_ok : m.planAddResolveInfo place info = .ok c ↔
    ∃ e, m.entryAt place = .ok e ∧ e.resolveInfo = none ∧
      .resolveInfoAdded place info e.target = c := by
  simp only [planAddResolveInfo, bind_eq_ok]
  refine exists_congr fun e => and_congr_right fun _ => ?_
  -- To say what is set already the name of the feature is looked up, and that fails or is a fault.
  cases e.resolveInfo <;> simp [bind_eq_ok, alreadySet_ne_ok]

/-- An entry loses its resolve info if it keeps a target. -/
theorem planDeleteResolveInfo_eq_ok : m.planDeleteResolveInfo place = .ok c ↔
    ∃ e old, m.entryAt place = .ok e ∧ e.resolveInfo = some old ∧ e.target.isSome ∧
      .resolveInfoDeleted place e.target old = c := by
  simp only [planDeleteResolveInfo, bind_eq_ok, exists_and_left]
  refine exists_congr fun e => and_congr_right fun _ => ?_
  cases e.resolveInfo <;> cases e.target <;> simp [unset_ne_ok]

/-- An entry gets other resolve info in place of what it has. -/
theorem planChangeResolveInfo_eq_ok : m.planChangeResolveInfo place info = .ok c ↔
    ∃ e old, m.entryAt place = .ok e ∧ e.resolveInfo = some old ∧
      .resolveInfoChanged place info e.target old = c := by
  simp only [planChangeResolveInfo, bind_eq_ok, exists_and_left]
  refine exists_congr fun e => and_congr_right fun _ => ?_
  cases e.resolveInfo <;> simp [unset_ne_ok]

/-- An entry gets a target that is there if it has none yet. -/
theorem planAddTarget_eq_ok : m.planAddTarget place target = .ok c ↔
    ∃ e, m.entryAt place = .ok e ∧ e.target = none ∧ target ∈ m.nodes ∧
      .targetAdded place target e.resolveInfo = c := by
  simp only [planAddTarget, bind_eq_ok]
  refine exists_congr fun e => and_congr_right fun _ => ?_
  cases e.target <;> simp [bind_eq_ok, alreadySet_ne_ok, node_eq_ok, mem_iff_exists]

/-- An entry loses its target if it keeps resolve info. -/
theorem planDeleteTarget_eq_ok : m.planDeleteTarget place = .ok c ↔
    ∃ e old, m.entryAt place = .ok e ∧ e.target = some old ∧ e.resolveInfo.isSome ∧
      .targetDeleted place e.resolveInfo old = c := by
  simp only [planDeleteTarget, bind_eq_ok, exists_and_left]
  refine exists_congr fun e => and_congr_right fun _ => ?_
  -- An entry with neither half is never left behind.
  cases e.target <;> cases e.resolveInfo <;> simp [unset_ne_ok]

/-- An entry gets another target that is there in place of the one that it has. -/
theorem planChangeTarget_eq_ok : m.planChangeTarget place target = .ok c ↔
    ∃ e old, m.entryAt place = .ok e ∧ e.target = some old ∧ target ∈ m.nodes ∧
      .targetChanged place target e.resolveInfo old = c := by
  simp only [planChangeTarget, bind_eq_ok, exists_and_left]
  refine exists_congr fun e => and_congr_right fun _ => ?_
  cases e.target <;> simp [bind_eq_ok, unset_ne_ok, node_eq_ok, mem_iff_exists]

end Halves

end Model

end DeltaForest
