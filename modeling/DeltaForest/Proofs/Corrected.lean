import DeltaForest.Proofs.Retold
import DeltaForest.Proofs.Undoing

/-!
# Events with their history set right

An event says what has become of a place and also what was there before. Whoever understands it
listens to the first only: to what is new, and to where it is. What was there before is in the model
anyway, and if the change is told as an event again, that event says it as the model has it
(`Event.corrected`). Which parts of an event are history is not the same for all kinds. The place
that a child or an annotation has left is, as it can be found; the place that an entry has left is
not, as an entry is known by its place only.

So of two events with the same news, one is understood as well as the other, and both are told again
as the same event (`Site.Reachable.corrects`).
-/

namespace DeltaForest

open Protocol

/-! ## What a model holds -/

namespace Model

variable (m : Model)

/-- The pointer to the classifier that a node has. -/
def classifierOf? (id : NodeId) : Option Pointer := do
  m.types.pointer? (← m.nodes[id]?).classifier

/-- The text of the value that a node has for a property. -/
def textOf? (id : NodeId) (p : Pointer) : Option String := do
  let v ← (← m.nodes[id]?).property? (← m.types.handle? p)
  return v.text

/-- The entry that stands at a place. -/
def entryOf? (place : Place Pointer) : Option Entry := do
  ((← m.nodes[place.owner]?).entries (← m.types.handle? place.feature))[place.index]?

/-- The place at which a child stands. -/
def childPlace? (id : NodeId) : Option (Place Pointer) := do
  let owner ← (← m.nodes[id]?).parent
  let (feature, index) ← (← m.nodes[owner]?).findChild? id
  return ⟨owner, ← m.types.pointer? feature, index⟩

/-- The place at which an annotation stands. -/
def annotationPlace? (id : NodeId) : Option AnnotationPlace := do
  let owner ← (← m.nodes[id]?).parent
  return ⟨owner, ← (← m.nodes[owner]?).annotationIndex? id⟩

/-- A node and what is below it. -/
def removal (root : NodeId) : Removal := ⟨root, (m.nodes.depthFirst root).tail⟩

end Model

/-! ## News and history -/

/-- A move without the place where it has started. -/
def Shift.news : Shift Pointer → Shift Pointer
  | elsewhere target _ => elsewhere target default
  | sameOwner owner newFeature newIndex _ _ => sameOwner owner newFeature newIndex default 0
  | sameList owner feature newIndex _ => sameList owner feature newIndex 0

namespace Shift

variable (s : Shift Pointer)

@[simp] theorem target_news : s.news.target = s.target := by cases s <;> rfl

@[simp] theorem reach_news (list : String) : s.news.reach list = s.reach list := by
  cases s <;> rfl

variable {s}

/-- The news of a move are where it ends and how far it goes. -/
theorem news_eq_of_reach {s' : Shift Pointer} (htarget : s.target = s'.target)
    (hreach : s.reach "Containment" = s'.reach "Containment") : s.news = s'.news := by
  cases s <;> cases s' <;> simp_all [target, reach, news]

end Shift

/-- A move without the place where it has started. -/
def AnnotationShift.news : AnnotationShift → AnnotationShift
  | elsewhere target _ => elsewhere target default
  | sameOwner owner newIndex _ => sameOwner owner newIndex 0

namespace AnnotationShift

variable (s : AnnotationShift)

@[simp] theorem target_news : s.news.target = s.target := by cases s <;> rfl

@[simp] theorem reach_news : s.news.reach = s.reach := by cases s <;> rfl

variable {s}

/-- The news of a move are where it ends and how far it goes. -/
theorem news_eq_of_reach {s' : AnnotationShift} (htarget : s.target = s'.target)
    (hreach : s.reach = s'.reach) : s.news = s'.news := by
  cases s <;> cases s' <;> simp_all [target, reach, news]

end AnnotationShift

/-- The end of a subtree without what was below its root. -/
def Protocol.Removal.news (r : Removal) : Removal := ⟨r.root, []⟩

namespace Protocol.Event

/-- An event without what it says of the state before. -/
def news : Event → Event
  | partitionDeleted old => partitionDeleted old.news
  | classifierChanged node new _ => classifierChanged node new default
  | propertyDeleted node property _ => propertyDeleted node property default
  | propertyChanged node property new _ => propertyChanged node property new default
  | childDeleted place old => childDeleted place old.news
  | childReplaced place new old => childReplaced place new old.news
  | childMoved shift moved => childMoved shift.news moved
  | childMovedAndReplaced shift moved old => childMovedAndReplaced shift.news moved old.news
  | annotationDeleted place old => annotationDeleted place old.news
  | annotationReplaced place new old => annotationReplaced place new old.news
  | annotationMoved shift moved => annotationMoved shift.news moved
  | annotationMovedAndReplaced shift moved old =>
    annotationMovedAndReplaced shift.news moved old.news
  | entryDeleted place _ => entryDeleted place default
  | entryChanged place new _ => entryChanged place new default
  | entryMoved shift _ => entryMoved shift default
  | entryMovedAndReplaced shift _ _ => entryMovedAndReplaced shift default default
  | resolveInfoAdded place new _ => resolveInfoAdded place new default
  | resolveInfoDeleted place _ _ => resolveInfoDeleted place default default
  | resolveInfoChanged place new _ _ => resolveInfoChanged place new default default
  | targetAdded place new _ => targetAdded place new default
  | targetDeleted place _ _ => targetDeleted place default default
  | targetChanged place new _ _ => targetChanged place new default default
  | e => e

/-- An event with its news as it is written once it has been read, and with its history as the model
    has it. -/
def corrected (m : Model) : Event → Option Event
  | partitionAdded new => return partitionAdded (← (m.rewrittenChunk new).toOption)
  | partitionDeleted old => return partitionDeleted (m.removal old.root)
  | classifierChanged node new _ =>
    return classifierChanged node new (← m.classifierOf? node)
  | propertyAdded node property new =>
    return propertyAdded node property (← (m.rewrittenText property new).toOption)
  | propertyDeleted node property _ =>
    return propertyDeleted node property (← m.textOf? node property)
  | propertyChanged node property new _ =>
    return propertyChanged node property (← (m.rewrittenText property new).toOption)
      (← m.textOf? node property)
  | childAdded place new => return childAdded place (← (m.rewrittenChunk new).toOption)
  | childDeleted place old => return childDeleted place (m.removal old.root)
  | childReplaced place new old =>
    return childReplaced place (← (m.rewrittenChunk new).toOption) (m.removal old.root)
  | childMoved shift moved =>
    return childMoved (.between shift.target (← m.childPlace? moved)) moved
  | childMovedAndReplaced shift moved old =>
    return childMovedAndReplaced (.between shift.target (← m.childPlace? moved)) moved
      (m.removal old.root)
  | annotationAdded place new => return annotationAdded place (← (m.rewrittenChunk new).toOption)
  | annotationDeleted place old => return annotationDeleted place (m.removal old.root)
  | annotationReplaced place new old =>
    return annotationReplaced place (← (m.rewrittenChunk new).toOption) (m.removal old.root)
  | annotationMoved shift moved =>
    return annotationMoved (.between shift.target (← m.annotationPlace? moved)) moved
  | annotationMovedAndReplaced shift moved old =>
    return annotationMovedAndReplaced (.between shift.target (← m.annotationPlace? moved)) moved
      (m.removal old.root)
  | entryAdded place new => return entryAdded place new
  | entryDeleted place _ => return entryDeleted place (← m.entryOf? place)
  | entryChanged place new _ => return entryChanged place new (← m.entryOf? place)
  | entryMoved shift _ => return entryMoved shift (← m.entryOf? shift.source)
  | entryMovedAndReplaced shift _ _ =>
    return entryMovedAndReplaced shift (← m.entryOf? shift.source) (← m.entryOf? shift.target)
  | resolveInfoAdded place new _ =>
    return resolveInfoAdded place new (← m.entryOf? place).target
  | resolveInfoDeleted place _ _ => do
    let e ← m.entryOf? place
    return resolveInfoDeleted place e.target (← e.resolveInfo)
  | resolveInfoChanged place new _ _ => do
    let e ← m.entryOf? place
    return resolveInfoChanged place new e.target (← e.resolveInfo)
  | targetAdded place new _ => return targetAdded place new (← m.entryOf? place).resolveInfo
  | targetDeleted place _ _ => do
    let e ← m.entryOf? place
    return targetDeleted place e.resolveInfo (← e.target)
  | targetChanged place new _ _ => do
    let e ← m.entryOf? place
    return targetChanged place new e.resolveInfo (← e.target)

/-- The chunk in an event. -/
def chunk? : Event → Option Chunk
  | partitionAdded new => some new
  | childAdded _ new => some new
  | childReplaced _ new _ => some new
  | annotationAdded _ new => some new
  | annotationReplaced _ new _ => some new
  | _ => none

/-- The property that an event says is set, and the text of the value. -/
def setting? : Event → Option (Pointer × String)
  | propertyAdded _ property new => some (property, new)
  | propertyChanged _ property new _ => some (property, new)
  | _ => none

/-- Whether an integer in the news of an event is spelled canonically. -/
def SpelledCanonically (types : TypeRegistry) (event : Event) : Prop :=
  ∀ p s, event.setting? = some (p, s) → ∀ info, types.feature .property p = .ok info →
    info.dataType? = some .integer → Text.isCanonical s = true

variable {m : Model} (event : Event)

/-- The news of an event are of the same kind. -/
@[simp] theorem kind_news : event.news.kind = event.kind := by
  cases event
  case childMoved shift _ => exact congrArg ("ChildMoved" ++ ·) (shift.reach_news _)
  case childMovedAndReplaced shift _ _ =>
    exact congrArg ("ChildMovedAndReplaced" ++ ·) (shift.reach_news _)
  case annotationMoved shift _ => exact congrArg ("AnnotationMoved" ++ ·) shift.reach_news
  case annotationMovedAndReplaced shift _ _ =>
    exact congrArg ("AnnotationMovedAndReplaced" ++ ·) shift.reach_news
  all_goals rfl

/-- An event is understood by its news. -/
@[simp] theorem toEdit_news : event.news.toEdit m = event.toEdit m := by
  cases event
  case childMoved | childMovedAndReplaced | annotationMoved | annotationMovedAndReplaced =>
    simp only [news, toEdit, Shift.target_news, AnnotationShift.target_news, Removal.news]
  all_goals rfl

/-- Nobody listens to history. -/
@[simp] theorem toChange_news : event.news.toChange m = event.toChange m := by
  simp only [toChange, toEdit_news, kind_news]

/-- History that is set right does not depend on what it was. -/
@[simp] theorem corrected_news : event.news.corrected m = event.corrected m := by
  cases event
  case childMoved | childMovedAndReplaced | annotationMoved | annotationMovedAndReplaced =>
    simp only [news, corrected, Shift.target_news, AnnotationShift.target_news, Removal.news]
  all_goals rfl

end Protocol.Event

/-! ## What is understood is what the model holds -/

namespace Model

variable {m : Model} {id : NodeId}

/-- A chunk is rewritten as the subtree is told that has been read from it. -/
theorem toOption_rewrittenChunk {chunk chunk' : Chunk} {tree : Subtree}
    (h : m.resolveChunk chunk = .ok tree) (h' : Chunk.ofSubtree m.types tree = .ok chunk') :
    (m.rewrittenChunk chunk).toOption = some chunk' := by
  rw [toOption_eq_some, rewrittenChunk, h, ok_bind, h']

/-- A text is rewritten as the value is told that has been read from it. -/
theorem toOption_rewrittenText {p : Pointer} {property : Handle} {s : String} {v : Value}
    (h : m.resolveValue p s = .ok (property, v)) :
    (m.rewrittenText p s).toOption = some v.text := by
  rw [toOption_eq_some, rewrittenText, h]
  rfl

/-- What leaves is told as the node and what is below it. -/
theorem removal_of_leaving {tree : Subtree} (hk : m.nodes.Keyed) (h : m.leaving id = .ok tree) :
    Removal.ofSubtree tree = m.removal id := by
  have hids := NodeTable.ids_collect hk (leaving_eq_ok.1 h).1
  rw [Removal.ofSubtree, removal, id_of_leaving hk h, ← hids]
  rfl

/-- A child stands where it is located. -/
theorem childPlace?_of_locateChild {source : Place Handle} {place : Place Pointer}
    (h : m.locateChild id = .ok source) (hplace : source.rename m.types.pointer = .ok place) :
    m.childPlace? id = some place := by
  obtain ⟨p, hp, heq⟩ := bind_eq_ok.1 hplace
  cases heq
  obtain ⟨n, o, hn, howner, ho, hfound⟩ := locateChild_iff.1 h
  simp [childPlace?, hn, howner, ho, hfound, TypeRegistry.pointer_eq_ok.1 hp]

/-- An annotation stands where it is located. -/
theorem annotationPlace?_of_locateAnnotation {spot : AnnotationPlace}
    (h : m.locateAnnotation id = .ok spot) : m.annotationPlace? id = some spot := by
  obtain ⟨n, o, hn, howner, ho, hfound⟩ := locateAnnotation_iff.1 h
  simp [annotationPlace?, hn, howner, ho, hfound]

variable (hl : m.types.Lawful)

include hl

/-- The text of the present value is told for the property. -/
theorem textOf?_of_currentValue {p : Pointer} {property : Handle} {v : Value}
    (hp : m.types.pointer property = .ok p) (h : m.currentValue id property = .ok v) :
    m.textOf? id p = some v.text := by
  obtain ⟨n, info, hslot, hv⟩ := currentValue_eq_ok.1 h
  simp [textOf?, (slot_eq_ok.1 hslot).2.1, hl.handle?_of_pointer hp, hv]

/-- The entry that stands at a place is told for it. -/
theorem entryOf?_of_entryAt {place : Place Handle} {q : Place Pointer} {e : Entry}
    (hq : q.rename (m.resolveFeature .reference) = .ok place) (h : m.entryAt place = .ok e) :
    m.entryOf? q = some e := by
  obtain ⟨feature, hfeature, heq⟩ := bind_eq_ok.1 hq
  cases heq
  obtain ⟨n, info, hslot, he⟩ := entryAt_eq_ok.1 h
  have hhandle := hl.handle?_of_pointer (pointer_of_resolveFeature hl hfeature)
  simp [entryOf?, (slot_eq_ok.1 hslot).2.1, hhandle, he]

end Model

namespace Shift

variable {φ ψ : Type} {f : φ → Except Fault ψ} {s : Shift φ} {s' : Shift ψ}

/-- How far a move goes is still told by its form when its features are named in another way. -/
theorem IsApt.rename (hf : ∀ x y z, f x = .ok z → f y = .ok z → x = y) (hs : s.IsApt)
    (h : s.rename f = .ok s') : s'.IsApt := by
  cases s <;> simp only [Shift.rename, bind_eq_ok, pure_eq_ok, Except.ok.injEq] at h
  case elsewhere target source =>
    obtain ⟨p, hp, q, hq, rfl⟩ := h
    obtain ⟨_, -, ⟨⟩⟩ := bind_eq_ok.1 hp
    obtain ⟨_, -, ⟨⟩⟩ := bind_eq_ok.1 hq
    exact hs
  case sameOwner owner newFeature newIndex oldFeature oldIndex =>
    obtain ⟨p, hp, q, hq, rfl⟩ := h
    rintro rfl
    exact hs (hf _ _ _ hp hq)
  case sameList owner feature newIndex oldIndex =>
    obtain ⟨p, -, rfl⟩ := h
    exact trivial

end Shift

/-- A move of a child is told as one from where the child has been. -/
theorem Model.eq_between_of_rename {m : Model} (hl : m.types.Lawful) {moved : NodeId}
    {place source : Place Handle} {target : Place Pointer} {s : Shift Pointer}
    (htarget : place.rename m.types.pointer = .ok target)
    (hsource : m.locateChild moved = .ok source)
    (hs : (Shift.between place source).rename m.types.pointer = .ok s) :
    ∃ old, m.childPlace? moved = some old ∧ s = .between target old := by
  have hplaces := Shift.target_rename hs
  have hold := Shift.source_rename hs
  rw [Shift.target_between, htarget] at hplaces
  rw [Shift.source_between] at hold
  have hapt := Shift.IsApt.rename (fun _ _ _ => hl.pointer_injective)
    (Shift.isApt_between place source) hs
  refine ⟨s.source, childPlace?_of_locateChild hsource hold, ?_⟩
  rw [Except.ok.inj hplaces, hapt.between_eq]

namespace Protocol.Event

variable {m : Model} {event told : Event} {c : Change} {e : Edit}

/-- Of a node that goes the model holds what is below it, and of a classifier that changes the
    pointer. -/
theorem corrected_of_toEdit_node (hl : m.types.Lawful) (hk : m.nodes.Keyed)
    (hs : event.subject = .node) (he : event.toEdit m = .ok e) (hplan : m.plan e = .ok c)
    (htold : ofChange m.types c = .ok told) : event.corrected m = some told := by
  cases event <;> cases hs <;>
    simp only [toEdit, bind_eq_ok, pure_eq_ok, Except.ok.injEq] at he
  case partitionAdded new =>
    obtain ⟨tree, htree, rfl⟩ := he
    obtain ⟨-, -, -, -, rfl⟩ := Model.planAddPartition_eq_ok.1 hplan
    obtain ⟨chunk, hchunk, ⟨⟩⟩ := bind_eq_ok.1 htold
    simp [corrected, Model.toOption_rewrittenChunk htree hchunk]
  case partitionDeleted old =>
    subst he
    obtain ⟨-, -, -, gone, hgone, rfl⟩ := Model.planDeletePartition_eq_ok.1 hplan
    cases htold
    rw [Model.removal_of_leaving hk hgone]
    rfl
  case classifierChanged node new old =>
    obtain ⟨classifier, hclassifier, rfl⟩ := he
    obtain ⟨-, n, -, hn, -, rfl⟩ := Model.planChangeClassifier_eq_ok.1 hplan
    rw [ofChange, pointer_of_resolveClassifier hl hclassifier, ok_bind] at htold
    obtain ⟨p, hp, ⟨⟩⟩ := bind_eq_ok.1 htold
    simp [corrected, Model.classifierOf?, hn, TypeRegistry.pointer_eq_ok.1 hp]

/-- Of a property that changes the model holds the text of the value. -/
theorem corrected_of_toEdit_property (hl : m.types.Lawful) (hs : event.subject = .property)
    (he : event.toEdit m = .ok e) (hplan : m.plan e = .ok c)
    (htold : ofChange m.types c = .ok told) : event.corrected m = some told := by
  cases event <;> cases hs <;>
    simp only [toEdit, bind_eq_ok, pure_eq_ok, Except.ok.injEq, Prod.exists] at he
  case propertyAdded node property new =>
    obtain ⟨p, v, hv, rfl⟩ := he
    obtain ⟨-, -, -, -, -, rfl⟩ := Model.planAddProperty_eq_ok.1 hplan
    rw [ofChange, pointer_of_resolveValue hl hv] at htold
    cases htold
    simp [corrected, Model.toOption_rewrittenText hv]
  case propertyDeleted node property old =>
    obtain ⟨p, hp, rfl⟩ := he
    obtain ⟨v, hv, rfl⟩ := Model.planDeleteProperty_eq_ok.1 hplan
    -- The value that goes is the one in the model, whatever the event says of it.
    have hpointer := pointer_of_resolveFeature hl hp
    rw [ofChange, hpointer] at htold
    cases htold
    simp [corrected, Model.textOf?_of_currentValue hl hpointer hv]
  case propertyChanged node property new old =>
    obtain ⟨p, v, hv, rfl⟩ := he
    obtain ⟨-, -, -, -, w, hw, rfl⟩ := Model.planChangeProperty_eq_ok.1 hplan
    have hpointer := pointer_of_resolveValue hl hv
    rw [ofChange, hpointer] at htold
    cases htold
    simp [corrected, Model.toOption_rewrittenText hv,
      Model.textOf?_of_currentValue hl hpointer hw]

/-- Of a child that is moved the model holds the place, and of one that goes what is below it. -/
theorem corrected_of_toEdit_child (hl : m.types.Lawful) (hk : m.nodes.Keyed)
    (hs : event.subject = .child) (he : event.toEdit m = .ok e) (hplan : m.plan e = .ok c)
    (htold : ofChange m.types c = .ok told) : event.corrected m = some told := by
  cases event <;> cases hs <;>
    simp only [toEdit, bind_eq_ok, pure_eq_ok, Except.ok.injEq] at he
  case childAdded place new =>
    obtain ⟨p, hp, tree, htree, rfl⟩ := he
    obtain ⟨-, -, -, -, -, -, rfl⟩ := Model.planAddChild_eq_ok.1 hplan
    rw [ofChange, rename_place hl hp, ok_bind] at htold
    obtain ⟨chunk, hchunk, ⟨⟩⟩ := bind_eq_ok.1 htold
    simp [corrected, Model.toOption_rewrittenChunk htree hchunk]
  case childDeleted place old =>
    obtain ⟨p, hp, rfl⟩ := he
    obtain ⟨-, gone, hgone, rfl⟩ := Model.planDeleteChild_eq_ok.1 hplan
    rw [ofChange, rename_place hl hp] at htold
    cases htold
    rw [Model.removal_of_leaving hk hgone]
    rfl
  case childReplaced place new old =>
    obtain ⟨p, hp, tree, htree, rfl⟩ := he
    obtain ⟨-, -, gone, hgone, rfl⟩ := Model.planReplaceChild_eq_ok.1 hplan
    rw [ofChange, rename_place hl hp, ok_bind] at htold
    obtain ⟨chunk, hchunk, ⟨⟩⟩ := bind_eq_ok.1 htold
    simp [corrected, Model.toOption_rewrittenChunk htree hchunk, Model.removal_of_leaving hk hgone]
  case childMoved shift moved =>
    obtain ⟨place, hplace, rfl⟩ := he
    obtain ⟨-, -, source, -, hsource, -, -, -, rfl⟩ := Model.planMoveChild_eq_ok.1 hplan
    -- The source is where the child has been located, whatever the event says of it.
    obtain ⟨s, hs, ⟨⟩⟩ := bind_eq_ok.1 htold
    obtain ⟨old, hold, rfl⟩ := Model.eq_between_of_rename hl (rename_place hl hplace) hsource hs
    simp [corrected, hold]
  case childMovedAndReplaced shift moved old =>
    obtain ⟨place, hplace, rfl⟩ := he
    obtain ⟨source, gone, -, hsource, -, -, hgone, rfl⟩ :=
      Model.planMoveAndReplaceChild_eq_ok.1 hplan
    obtain ⟨s, hs, ⟨⟩⟩ := bind_eq_ok.1 htold
    obtain ⟨old, hold, rfl⟩ := Model.eq_between_of_rename hl (rename_place hl hplace) hsource hs
    simp [corrected, hold, Model.removal_of_leaving hk hgone]

/-- Of an annotation that is moved the model holds the place, and of one that goes what is below
    it. -/
theorem corrected_of_toEdit_annotation (hk : m.nodes.Keyed)
    (hs : event.subject = Subject.annotation) (he : event.toEdit m = .ok e)
    (hplan : m.plan e = .ok c) (htold : ofChange m.types c = .ok told) :
    event.corrected m = some told := by
  cases event <;> cases hs <;>
    simp only [toEdit, bind_eq_ok, pure_eq_ok, Except.ok.injEq] at he
  case annotationAdded place new =>
    obtain ⟨tree, htree, rfl⟩ := he
    obtain ⟨-, -, -, -, -, rfl⟩ := Model.planAddAnnotation_eq_ok.1 hplan
    obtain ⟨chunk, hchunk, ⟨⟩⟩ := bind_eq_ok.1 htold
    simp [corrected, Model.toOption_rewrittenChunk htree hchunk]
  case annotationDeleted place old =>
    subst he
    obtain ⟨-, gone, hgone, rfl⟩ := Model.planDeleteAnnotation_eq_ok.1 hplan
    cases htold
    rw [Model.removal_of_leaving hk hgone]
    rfl
  case annotationReplaced place new old =>
    obtain ⟨tree, htree, rfl⟩ := he
    obtain ⟨-, -, -, gone, hgone, rfl⟩ := Model.planReplaceAnnotation_eq_ok.1 hplan
    obtain ⟨chunk, hchunk, ⟨⟩⟩ := bind_eq_ok.1 htold
    simp [corrected, Model.toOption_rewrittenChunk htree hchunk, Model.removal_of_leaving hk hgone]
  case annotationMoved shift moved =>
    subst he
    obtain ⟨-, source, -, hsource, -, -, rfl⟩ := Model.planMoveAnnotation_eq_ok.1 hplan
    cases htold
    simp [corrected, Model.annotationPlace?_of_locateAnnotation hsource]
  case annotationMovedAndReplaced shift moved old =>
    subst he
    obtain ⟨source, gone, -, hsource, -, -, hgone, rfl⟩ :=
      Model.planMoveAndReplaceAnnotation_eq_ok.1 hplan
    cases htold
    simp [corrected, Model.annotationPlace?_of_locateAnnotation hsource,
      Model.removal_of_leaving hk hgone]

/-- Of an entry that goes or is moved the model holds the entry. How far it is moved is told by the
    kind of the event. -/
theorem corrected_of_toEdit_entry (hl : m.types.Lawful) (hs : event.subject = .entry)
    (he : event.toEdit m = .ok e) (hplan : m.plan e = .ok c) (hkind : c.kind = event.kind)
    (htold : ofChange m.types c = .ok told) : event.corrected m = some told := by
  cases event <;> cases hs <;>
    simp only [toEdit, bind_eq_ok, pure_eq_ok, Except.ok.injEq] at he
  case entryAdded place new =>
    obtain ⟨p, hp, entry, hentry, rfl⟩ := he
    obtain ⟨-, -, -, -, -, -, rfl⟩ := Model.planAddEntry_eq_ok.1 hplan
    rw [ofChange, rename_place hl hp, Entry.eq_of_checked hentry] at htold
    cases htold
    rfl
  case entryDeleted place old =>
    obtain ⟨p, hp, rfl⟩ := he
    obtain ⟨entry, hentry, rfl⟩ := Model.planDeleteEntry_eq_ok.1 hplan
    rw [ofChange, rename_place hl hp] at htold
    cases htold
    simp [corrected, Model.entryOf?_of_entryAt hl hp hentry]
  case entryChanged place new old =>
    obtain ⟨p, hp, entry, hentry, rfl⟩ := he
    obtain ⟨entry', hentry', -, rfl⟩ := Model.planChangeEntry_eq_ok.1 hplan
    rw [ofChange, rename_place hl hp, Entry.eq_of_checked hentry] at htold
    cases htold
    simp [corrected, Model.entryOf?_of_entryAt hl hp hentry']
  case entryMoved s moved =>
    obtain ⟨shift, hshift, rfl⟩ := he
    obtain ⟨entry, -, -, hentry, -, -, -, rfl⟩ := Model.planMoveEntry_eq_ok.1 hplan
    rw [ofChange, Command.rename_between hl hshift ((String.append_right_inj _).1 hkind)] at htold
    cases htold
    simp [corrected, Model.entryOf?_of_entryAt hl (Shift.source_rename hshift) hentry]
  case entryMovedAndReplaced s moved old =>
    obtain ⟨shift, hshift, rfl⟩ := he
    obtain ⟨entry, entry', hentry, hentry', -, rfl⟩ :=
      Model.planMoveAndReplaceEntry_eq_ok.1 hplan
    rw [ofChange, Command.rename_between hl hshift ((String.append_right_inj _).1 hkind)] at htold
    cases htold
    simp [corrected, Model.entryOf?_of_entryAt hl (Shift.source_rename hshift) hentry,
      Model.entryOf?_of_entryAt hl (Shift.target_rename hshift) hentry']

/-- Of an entry that gets or loses a half the model holds both halves. -/
theorem corrected_of_toEdit_half (hl : m.types.Lawful) (hs : event.subject = .half)
    (he : event.toEdit m = .ok e) (hplan : m.plan e = .ok c)
    (htold : ofChange m.types c = .ok told) : event.corrected m = some told := by
  cases event <;> cases hs <;>
    simp only [toEdit, bind_eq_ok, pure_eq_ok, Except.ok.injEq] at he
  case resolveInfoAdded place new target =>
    obtain ⟨p, hp, rfl⟩ := he
    obtain ⟨entry, hentry, -, rfl⟩ := Model.planAddResolveInfo_eq_ok.1 hplan
    rw [ofChange, rename_place hl hp] at htold
    cases htold
    simp [corrected, Model.entryOf?_of_entryAt hl hp hentry]
  case resolveInfoDeleted place target old =>
    obtain ⟨p, hp, rfl⟩ := he
    obtain ⟨entry, info, hentry, hinfo, -, rfl⟩ := Model.planDeleteResolveInfo_eq_ok.1 hplan
    rw [ofChange, rename_place hl hp] at htold
    cases htold
    simp [corrected, Model.entryOf?_of_entryAt hl hp hentry, hinfo]
  case resolveInfoChanged place new target old =>
    obtain ⟨p, hp, rfl⟩ := he
    obtain ⟨entry, info, hentry, hinfo, rfl⟩ := Model.planChangeResolveInfo_eq_ok.1 hplan
    rw [ofChange, rename_place hl hp] at htold
    cases htold
    simp [corrected, Model.entryOf?_of_entryAt hl hp hentry, hinfo]
  case targetAdded place new resolveInfo =>
    obtain ⟨p, hp, rfl⟩ := he
    obtain ⟨entry, hentry, -, -, rfl⟩ := Model.planAddTarget_eq_ok.1 hplan
    rw [ofChange, rename_place hl hp] at htold
    cases htold
    simp [corrected, Model.entryOf?_of_entryAt hl hp hentry]
  case targetDeleted place resolveInfo old =>
    obtain ⟨p, hp, rfl⟩ := he
    obtain ⟨entry, target, hentry, htarget, -, rfl⟩ := Model.planDeleteTarget_eq_ok.1 hplan
    rw [ofChange, rename_place hl hp] at htold
    cases htold
    simp [corrected, Model.entryOf?_of_entryAt hl hp hentry, htarget]
  case targetChanged place new resolveInfo old =>
    obtain ⟨p, hp, rfl⟩ := he
    obtain ⟨entry, target, hentry, htarget, -, rfl⟩ := Model.planChangeTarget_eq_ok.1 hplan
    rw [ofChange, rename_place hl hp] at htold
    cases htold
    simp [corrected, Model.entryOf?_of_entryAt hl hp hentry, htarget]

/-- What has been planned from the edit that an event tells of is told as the event itself, with its
    history set right. -/
theorem corrected_of_toEdit (hl : m.types.Lawful) (hk : m.nodes.Keyed)
    (he : event.toEdit m = .ok e) (hplan : m.plan e = .ok c) (hkind : c.kind = event.kind)
    (htold : ofChange m.types c = .ok told) : event.corrected m = some told := by
  -- Of the model, a planner takes over exactly what the event says of it, each time by a look-up
  -- that the model answers.
  cases hs : event.subject with
  | node => exact corrected_of_toEdit_node hl hk hs he hplan htold
  | property => exact corrected_of_toEdit_property hl hs he hplan htold
  | child => exact corrected_of_toEdit_child hl hk hs he hplan htold
  | annotation => exact corrected_of_toEdit_annotation hk hs he hplan htold
  | entry => exact corrected_of_toEdit_entry hl hs he hplan hkind htold
  | half => exact corrected_of_toEdit_half hl hs he hplan htold

/-- An event without a chunk keeps its news when its history is set right, if an integer in it is
    spelled canonically, and only then. -/
theorem news_eq_iff (hchunk : event.chunk? = none) (h : event.corrected m = some told)
    (hkind : told.kind = event.kind) :
    told.news = event.news ↔ event.SpelledCanonically m.types := by
  cases event <;> simp only [corrected, Option.bind_eq_bind, Option.bind_eq_some_iff,
    Option.pure_def, Option.some.injEq, toOption_eq_some] at h
  case partitionAdded | childAdded | childReplaced | annotationAdded | annotationReplaced =>
    cases hchunk
  case propertyAdded node property new =>
    obtain ⟨text, htext, rfl⟩ := h
    simpa [SpelledCanonically, setting?, news] using Model.rewrittenText_eq_iff htext
  case propertyChanged node property new old =>
    obtain ⟨text, htext, _, -, rfl⟩ := h
    simpa [SpelledCanonically, setting?, news] using Model.rewrittenText_eq_iff htext
  -- The other events do not set a property. Of a move the news are kept as it is of the same kind.
  all_goals refine iff_of_true ?_ fun _ _ hset => nomatch hset
  case childMoved shift moved =>
    obtain ⟨source, -, rfl⟩ := h
    exact congrArg (childMoved · moved)
      (Shift.news_eq_of_reach (Shift.target_between _ _) ((String.append_right_inj _).1 hkind))
  case childMovedAndReplaced shift moved old =>
    obtain ⟨source, -, rfl⟩ := h
    exact congrArg (childMovedAndReplaced · moved old.news)
      (Shift.news_eq_of_reach (Shift.target_between _ _) ((String.append_right_inj _).1 hkind))
  case annotationMoved shift moved =>
    obtain ⟨source, -, rfl⟩ := h
    exact congrArg (Event.annotationMoved · moved) (AnnotationShift.news_eq_of_reach
      (AnnotationShift.target_between _ _) ((String.append_right_inj _).1 hkind))
  case annotationMovedAndReplaced shift moved old =>
    obtain ⟨source, -, rfl⟩ := h
    exact congrArg (Event.annotationMovedAndReplaced · moved old.news)
      (AnnotationShift.news_eq_of_reach (AnnotationShift.target_between _ _)
        ((String.append_right_inj _).1 hkind))
  case partitionDeleted | childDeleted | annotationDeleted | entryAdded =>
    subst h
    rfl
  case classifierChanged | propertyDeleted | entryDeleted | entryChanged | entryMoved |
      resolveInfoAdded | targetAdded =>
    obtain ⟨_, -, rfl⟩ := h
    rfl
  all_goals
    obtain ⟨_, -, _, -, rfl⟩ := h
    rfl

end Protocol.Event

/-! ## What is made of an event in whatever has come about -/

/-- What a forest makes of an event that it understands as a change: another event, which is the
    first one with its history set right. -/
structure Forest.Corrects (f : Forest) (event : Event) (c : Change) (again : Event) : Prop where
  /-- The change is told as this event. -/
  told : Event.ofChange f.types c = .ok again
  /-- Its history is as the forest has it. -/
  corrected : event.corrected f.model = some again
  kind : again.kind = event.kind
  /-- Its news are those of the first event, if that one has no chunk and spells an integer
      canonically. -/
  news : event.chunk? = none → (again.news = event.news ↔ event.SpelledCanonically f.types)
  /-- There is nothing left to set right. -/
  settled : again.corrected f.model = some again
  /-- It is understood as the change, too. -/
  understood : again.toChange f.model = .ok c
  /-- Whatever else the first event had said of history, it would have come to the same. -/
  blind : ∀ event' : Event, event'.news = event.news →
    event'.toChange f.model = .ok c ∧ event'.corrected f.model = some again

/-- In whatever has come about, every event that is understood has its history set right. -/
theorem Site.Reachable.corrects {types : TypeRegistry} {site : Site} {past : List Checkpoint}
    {made : List Change} {languages : List Language}
    (htypes : TypeRegistry.registerAll .empty languages = .ok types)
    (h : Site.Reachable types site past made) {event : Event} {c : Change}
    (hc : event.toChange site.forest.model = .ok c) :
    ∃ again, site.forest.Corrects event c again := by
  have hproper := h.proper
  have hk := hproper.wellFormed.treelike.keyed
  have hl := TypeRegistry.lawful_of_registerAll htypes
  obtain rfl := hproper.types
  obtain ⟨e, he, hplan, hkind⟩ := Event.toChange_eq_ok.1 hc
  have htree : ∀ tree ∈ c.incoming, tree.IsTree := by
    rw [Model.incoming_of_plan hk hplan]
    exact Event.isTree_of_toEdit he
  obtain ⟨again, htold, hunderstood⟩ :=
    Forest.exists_event hl hproper (Model.replan_of_plan hk hplan) htree
  rw [Event.travelled_of_toChange hk hc] at hunderstood
  obtain ⟨e', he', hplan', hkind'⟩ := Event.toChange_eq_ok.1 hunderstood
  have hcorrected := Event.corrected_of_toEdit hl hk he hplan hkind htold
  have hsettled := Event.corrected_of_toEdit hl hk he' hplan' hkind' htold
  have hsame : again.kind = event.kind := hkind'.symm.trans hkind
  refine ⟨again, htold, hcorrected, hsame, fun hchunk => Event.news_eq_iff hchunk hcorrected hsame,
    hsettled, hunderstood, fun event' hnews => ⟨?_, ?_⟩⟩
  · rw [← event'.toChange_news, hnews, event.toChange_news, hc]
  · rw [← event'.corrected_news, hnews, event.corrected_news, hcorrected]

/-! ## A book that is said to have stood elsewhere -/

namespace Examples

/-- The first book has gone to the last place in the library. Where it has stood can be said in many
    ways. -/
def reordered (oldIndex : Nat) : Event :=
  .childMoved (.sameList ⟨"city"⟩ ⟨"library", "1", "Library-books"⟩ 1 oldIndex) ⟨"novel"⟩

/-- It has stood at the first place. -/
theorem corrects_reordered : TypeRegistry.registerAll .empty [library] = .ok libraryTypes ∧
    Site.Reachable libraryTypes paired [] [opening, shelving, accompanying] ∧
    (reordered 7).toChange paired.forest.model = .ok reordering ∧
    paired.forest.Corrects (reordered 7) reordering (reordered 0) := by
  have hchange : (reordered 7).toChange paired.forest.model = .ok reordering := by decide +kernel
  obtain ⟨again, hcorrects⟩ :=
    Site.Reachable.corrects registerAll_library reachable_paired hchange
  have htold : Event.ofChange paired.forest.types reordering = .ok (reordered 0) := by
    decide +kernel
  obtain rfl : again = reordered 0 := Except.ok.inj (hcorrects.told.symm.trans htold)
  exact ⟨registerAll_library, reachable_paired, hchange, hcorrects⟩

end Examples

end DeltaForest
