import DeltaForest.Proofs.Pruned
import DeltaForest.Proofs.Sequence
import DeltaForest.Proofs.Travel
import DeltaForest.Proofs.Typed

/-!
# What is told is understood

A change that fits can be told as a command and as an event, and either is understood, in the state
that the change was made in, as the change itself with what comes along as it arrives
(`Command.conveys`, `Event.conveys`). Pointers lead back to the handles that they stand
for, and a place that a command leaves out is found where it was.
-/

namespace DeltaForest

open Protocol

/-! ## Moves in other names -/

namespace Shift

variable {φ ψ : Type} {f : φ → Except Fault ψ} {s : Shift φ} {t : Shift ψ}

/-- A move ends where it did when its features are named in another way. -/
theorem target_rename (h : s.rename f = .ok t) : s.target.rename f = .ok t.target := by
  cases s <;> simp only [rename, bind_eq_ok, pure_eq_ok, Except.ok.injEq] at h
  case elsewhere target source =>
    obtain ⟨p, hp, q, -, rfl⟩ := h
    exact hp
  case sameOwner owner newFeature newIndex oldFeature oldIndex =>
    obtain ⟨p, hp, q, -, rfl⟩ := h
    rw [target, Place.rename, hp]
    rfl
  case sameList owner feature newIndex oldIndex =>
    obtain ⟨p, hp, rfl⟩ := h
    rw [target, Place.rename, hp]
    rfl

/-- A move starts where it did when its features are named in another way. -/
theorem source_rename (h : s.rename f = .ok t) : s.source.rename f = .ok t.source := by
  cases s <;> simp only [rename, bind_eq_ok, pure_eq_ok, Except.ok.injEq] at h
  case elsewhere target source =>
    obtain ⟨p, -, q, hq, rfl⟩ := h
    exact hq
  case sameOwner owner newFeature newIndex oldFeature oldIndex =>
    obtain ⟨p, -, q, hq, rfl⟩ := h
    rw [source, Place.rename, hq]
    rfl
  case sameList owner feature newIndex oldIndex =>
    obtain ⟨p, hp, rfl⟩ := h
    rw [source, Place.rename, hp]
    rfl

/-- A move goes as far as it did when its features are named in another way. -/
theorem reach_rename (h : s.rename f = .ok t) (list : String) : t.reach list = s.reach list := by
  cases s <;> simp only [rename, bind_eq_ok, pure_eq_ok, Except.ok.injEq] at h
  case elsewhere => obtain ⟨_, -, _, -, rfl⟩ := h; rfl
  case sameOwner => obtain ⟨_, -, _, -, rfl⟩ := h; rfl
  case sameList => obtain ⟨_, -, rfl⟩ := h; rfl

end Shift

/-! ## Pointers for handles -/

section Named

variable {m : Model} (hl : m.types.Lawful) {kind : ElementKind}

include hl

/-- A registered classifier is known by its pointer. -/
theorem exists_classifier {h : Handle} (hinfo : ∃ info, m.types.classifierAt h = .ok info) :
    ∃ p, m.types.pointer h = .ok p ∧ m.resolveClassifier p = .ok h := by
  obtain ⟨info, hinfo⟩ := hinfo
  obtain ⟨hp, hclassifier, hh⟩ := hl.classifier_pointer hinfo
  refine ⟨info.pointer, hp, ?_⟩
  rw [Model.resolveClassifier, hclassifier, ok_bind, hh]
  rfl

/-- A registered feature is known by its pointer. -/
theorem exists_feature {h : Handle} (hinfo : ∃ info, m.types.featureAt kind h = .ok info) :
    ∃ p, m.types.pointer h = .ok p ∧ m.resolveFeature kind p = .ok h := by
  obtain ⟨info, hinfo⟩ := hinfo
  obtain ⟨hp, hfeature, hh⟩ := hl.feature_pointer hinfo
  refine ⟨info.pointer, hp, ?_⟩
  rw [Model.resolveFeature, hfeature, ok_bind, hh]
  rfl

/-- A value of a property is known by its text. -/
theorem exists_value {h : Handle} {info : FeatureInfo} {v : Value}
    (hinfo : m.types.featureAt .property h = .ok info) (hv : checkValue info v = .ok ()) :
    ∃ p, m.types.pointer h = .ok p ∧ m.resolveValue p v.text = .ok (h, v) := by
  obtain ⟨hp, hfeature, hh⟩ := hl.feature_pointer hinfo
  obtain ⟨type, htype, hconforms⟩ := checkValue_eq_ok.1 hv
  refine ⟨info.pointer, hp, ?_⟩
  rw [Model.resolveValue, hfeature, ok_bind, htype]
  dsimp only
  rw [Value.read_text _ hconforms, ok_bind, hh]
  rfl

/-- A place in a registered feature is known by the pointer to the feature. -/
theorem exists_place {place : Place Handle}
    (hinfo : ∃ info, m.types.featureAt kind place.feature = .ok info) :
    ∃ p, place.rename m.types.pointer = .ok p ∧
      p.rename (m.resolveFeature kind) = .ok place := by
  obtain ⟨p, hp, hresolve⟩ := exists_feature hl hinfo
  refine ⟨⟨place.owner, p, place.index⟩, ?_, ?_⟩
  · rw [Place.rename, hp]
    rfl
  · rw [Place.rename, hresolve]
    rfl

/-- A move can be told. -/
theorem exists_shift {shift : Shift Handle}
    (htarget : ∃ info, m.types.featureAt kind shift.target.feature = .ok info)
    (hsource : ∃ info, m.types.featureAt kind shift.source.feature = .ok info) :
    ∃ s, shift.rename m.types.pointer = .ok s ∧ s.rename (m.resolveFeature kind) = .ok shift := by
  cases shift with
  | elsewhere target source =>
    obtain ⟨p, hp, hp'⟩ := exists_place hl htarget
    obtain ⟨q, hq, hq'⟩ := exists_place hl hsource
    rw [Shift.target] at hp hp'
    rw [Shift.source] at hq hq'
    refine ⟨.elsewhere p q, ?_, ?_⟩
    · rw [Shift.rename, hp, ok_bind, hq]
      rfl
    · rw [Shift.rename, hp', ok_bind, hq']
      rfl
  | sameOwner owner newFeature newIndex oldFeature oldIndex =>
    obtain ⟨p, hp, hp'⟩ := exists_feature hl htarget
    obtain ⟨q, hq, hq'⟩ := exists_feature hl hsource
    rw [Shift.target] at hp hp'
    rw [Shift.source] at hq hq'
    refine ⟨.sameOwner owner p newIndex q oldIndex, ?_, ?_⟩
    · rw [Shift.rename, hp, ok_bind, hq]
      rfl
    · rw [Shift.rename, hp', ok_bind, hq']
      rfl
  | sameList owner feature newIndex oldIndex =>
    obtain ⟨p, hp, hp'⟩ := exists_feature hl htarget
    rw [Shift.target] at hp hp'
    refine ⟨.sameList owner p newIndex oldIndex, ?_, ?_⟩
    · rw [Shift.rename, hp]
      rfl
    · rw [Shift.rename, hp']
      rfl

/-- Where a move ends can be told by telling the move. -/
theorem exists_target {shift : Shift Handle}
    (htarget : ∃ info, m.types.featureAt kind shift.target.feature = .ok info)
    (hsource : ∃ info, m.types.featureAt kind shift.source.feature = .ok info) :
    ∃ s, shift.rename m.types.pointer = .ok s ∧
      s.target.rename (m.resolveFeature kind) = .ok shift.target := by
  obtain ⟨s, hs, hshift⟩ := exists_shift hl htarget hsource
  exact ⟨s, hs, Shift.target_rename hshift⟩

end Named

/-! ## Places that a change names -/

namespace Model

variable {m : Model} {place : Place Handle}

/-- A place at which a child is checked is in a containment. -/
theorem featureAt_of_childAt {child : NodeId} (h : m.childAt place child = .ok ()) :
    ∃ info, m.types.featureAt .containment place.feature = .ok info := by
  obtain ⟨n, info, hslot, -⟩ := childAt_eq_ok.1 h
  exact ⟨info, (slot_eq_ok.1 hslot).1⟩

/-- A place at which an entry is read is in a reference. -/
theorem featureAt_of_entryAt {e : Entry} (h : m.entryAt place = .ok e) :
    ∃ info, m.types.featureAt .reference place.feature = .ok info := by
  obtain ⟨n, info, hslot, -⟩ := entryAt_eq_ok.1 h
  exact ⟨info, (slot_eq_ok.1 hslot).1⟩

/-- Where a child is there is a containment, because nodes are typed. -/
theorem featureAt_of_locateChild {child : NodeId} (hnodes : m.nodes.Typed m.types)
    (h : m.locateChild child = .ok place) :
    ∃ info, m.types.featureAt .containment place.feature = .ok info :=
  hnodes.registered_of_at? (at?_of_locateChild h)

end Model

/-! ## Telling and understanding -/

/-- Something can be told, and is then understood as an edit of some kind. -/
def Conveys {γ : Type} (told : Except Fault γ) (toEdit : γ → Except Fault Edit)
    (kind : γ → String) (e : Edit) (word : String) : Prop :=
  ∃ message, told = .ok message ∧ toEdit message = .ok e ∧ kind message = word

namespace Conveys

variable {α α' β β' γ : Type} {write : Except Fault α} {read : α → Except Fault β} {b : β}
  {write' : Except Fault α'} {read' : α' → Except Fault β'} {b' : β'}
  {toEdit : γ → Except Fault Edit} {kind : γ → String} {word : String}

/-- What is told is understood if the only part of it is that has to be looked up. -/
theorem of_part (tell : α → γ) (edit : β → Edit) (h : ∃ a, write = .ok a ∧ read a = .ok b)
    (hread : ∀ a, toEdit (tell a) = read a >>= fun b => pure (edit b))
    (hkind : ∀ a, write = .ok a → kind (tell a) = word) :
    Conveys (write >>= fun a => pure (tell a)) toEdit kind (edit b) word := by
  obtain ⟨a, ha, hb⟩ := h
  refine ⟨tell a, ?_, ?_, hkind a ha⟩
  · rw [ha]
    rfl
  · rw [hread, hb]
    rfl

/-- What is told is understood if both parts of it are that have to be looked up. -/
theorem of_parts (tell : α → α' → γ) (edit : β → β' → Edit)
    (h : ∃ a, write = .ok a ∧ read a = .ok b) (h' : ∃ a, write' = .ok a ∧ read' a = .ok b')
    (hread : ∀ a a', toEdit (tell a a') = read a >>= fun b => read' a' >>= fun b' =>
      pure (edit b b')) (hkind : ∀ a a', kind (tell a a') = word) :
    Conveys (write >>= fun a => write' >>= fun a' => pure (tell a a')) toEdit kind (edit b b')
      word := by
  obtain ⟨a, ha, hb⟩ := h
  obtain ⟨a', ha', hb'⟩ := h'
  refine ⟨tell a a', ?_, ?_, hkind a a'⟩
  · rw [ha, ok_bind, ha']
    rfl
  · rw [hread, hb, ok_bind, hb']
    rfl

end Conveys

/-- An entry that may stand in a reference is told as it is. -/
theorem exists_entry {m : Model} {e : Entry} (h : m.checkEntry e = .ok ()) :
    ∃ a, (Except.ok e : Except Fault Entry) = .ok a ∧ a.checked = .ok e := by
  obtain ⟨u, hcheck, -⟩ := bind_eq_ok.1 h
  refine ⟨e, rfl, ?_⟩
  rw [Entry.checked, hcheck]
  rfl

/-! ## Commands -/

namespace Protocol

variable {m : Model} {c : Change}

/-- Where a command leaves out a part of the place where a child is to go, it is as it was. -/
theorem Command.destination_ofShift {shift : Shift Handle} {s : Shift Pointer} {moved : NodeId}
    (hs : s.rename (m.resolveFeature .containment) = .ok shift)
    (hsource : m.locateChild moved = .ok shift.source) :
    toEdit.destination m (.ofShift s) moved = .ok shift.target := by
  cases s with
  | elsewhere target source => exact Shift.target_rename hs
  | sameOwner owner newFeature newIndex oldFeature oldIndex =>
    simp only [Shift.rename, bind_eq_ok, pure_eq_ok, Except.ok.injEq] at hs
    obtain ⟨new, hnew, old, -, rfl⟩ := hs
    rw [Destination.ofShift, toEdit.destination, hsource, ok_bind, hnew]
    rfl
  | sameList owner feature newIndex oldIndex =>
    simp only [Shift.rename, bind_eq_ok, pure_eq_ok, Except.ok.injEq] at hs
    obtain ⟨list, -, rfl⟩ := hs
    rw [Destination.ofShift, toEdit.destination, hsource]
    rfl

/-- Where a moved child is to go is found again from what a command says of it. -/
theorem Command.exists_destination {shift : Shift Handle} {moved : NodeId} (hl : m.types.Lawful)
    (hnodes : m.nodes.Typed m.types) (hsource : m.locateChild moved = .ok shift.source)
    (htarget : ∃ info, m.types.featureAt .containment shift.target.feature = .ok info) :
    ∃ s, shift.rename m.types.pointer = .ok s ∧
      toEdit.destination m (.ofShift s) moved = .ok shift.target := by
  obtain ⟨s, hs, hshift⟩ :=
    exists_shift hl htarget (Model.featureAt_of_locateChild hnodes hsource)
  exact ⟨s, hs, destination_ofShift hshift hsource⟩

/-- Where a command leaves out the owner that an annotation is to have, it is as it was. -/
theorem Command.annotationDestination_ofShift {shift : AnnotationShift} {moved : NodeId}
    (hsource : m.locateAnnotation moved = .ok shift.source) :
    toEdit.annotationDestination m (.ofShift shift) moved = .ok shift.target := by
  cases shift with
  | elsewhere target source => rfl
  | sameOwner owner newIndex oldIndex =>
    rw [AnnotationDestination.ofShift, toEdit.annotationDestination, hsource]
    rfl

/-- A command for the move of a child is of the kind that tells how far the child goes. -/
theorem reach_ofShift (s : Shift Pointer) :
    (Destination.ofShift s).reach = s.reach "Containment" := by
  cases s <;> rfl

/-- A command for the move of an annotation is of the kind that tells how far it goes. -/
theorem reach_ofAnnotationShift (s : AnnotationShift) :
    (AnnotationDestination.ofShift s).reach = s.reach := by
  cases s <;> rfl

variable (hl : m.types.Lawful) (hnodes : m.nodes.Typed m.types) (hc : c.Fits m)
  (htree : ∀ tree ∈ c.incoming, tree.IsTree)

include hl hc htree in
/-- What comes along with a change that fits can be told as a chunk, and is read as it arrives. -/
theorem exists_chunk : ∀ tree ∈ c.incoming, ∃ chunk, Chunk.ofSubtree m.types tree = .ok chunk ∧
    m.resolveChunk chunk = .ok tree.travelled :=
  fun tree hin =>
    Chunk.exists_travelled hl (htree tree hin) (Change.checkNew_of_fits hc tree hin)

include hl hc htree in
/-- A change of a whole node can be told as a command: a classifier by its pointer, a partition that
    comes by its chunk, and one that goes by its root. -/
theorem Command.conveys_node (hs : c.subject = .node) :
    Conveys (ofChange m.types c) (toEdit m) changeKind c.travelled.edit c.kind := by
  have hchunk := exists_chunk hl hc htree
  cases c <;> cases hs
  case partitionAdded tree =>
    exact .of_part addPartition .addPartition (hchunk tree List.mem_cons_self) (fun _ => rfl)
      fun _ _ => rfl
  case partitionDeleted => exact ⟨_, rfl, rfl, rfl⟩
  case classifierChanged id new old =>
    exact .of_part (changeClassifier id) (.changeClassifier id) (exists_classifier hl hc.1)
      (fun _ => rfl) fun _ _ => rfl

include hl hc in
/-- A change of a property can be told as a command: a property by its pointer and a value by its
    text. -/
theorem Command.conveys_property (hs : c.subject = .property) :
    Conveys (ofChange m.types c) (toEdit m) changeKind c.travelled.edit c.kind := by
  cases c <;> cases hs
  case propertyAdded id property new =>
    -- The pointer leads back to the property, and with it the text to the value.
    obtain ⟨n, info, hslot, hvalue⟩ := hc
    exact .of_part (b := (property, new)) (addProperty id · new.text)
      (fun v => .addProperty id v.1 v.2)
      (exists_value hl (Model.slot_eq_ok.1 hslot).1 hvalue) (fun _ => rfl) fun _ _ => rfl
  case propertyChanged id property new old =>
    obtain ⟨n, info, hslot, hvalue⟩ := hc
    exact .of_part (b := (property, new)) (changeProperty id · new.text)
      (fun v => .changeProperty id v.1 v.2)
      (exists_value hl (Model.slot_eq_ok.1 hslot).1 hvalue) (fun _ => rfl) fun _ _ => rfl
  case propertyDeleted id property old =>
    obtain ⟨n, info, hslot, -⟩ := hc
    exact .of_part (deleteProperty id) (.deleteProperty id)
      (exists_feature hl ⟨info, (Model.slot_eq_ok.1 hslot).1⟩) (fun _ => rfl) fun _ _ => rfl

include hl hnodes hc htree in
/-- A change of a child can be told as a command. The place where a moved child has been need not be
    told, as far as it can be found. -/
theorem Command.conveys_child (hs : c.subject = .child) :
    Conveys (ofChange m.types c) (toEdit m) changeKind c.travelled.edit c.kind := by
  have hchunk := exists_chunk hl hc htree
  cases c <;> cases hs
  case childAdded place new =>
    obtain ⟨⟨n, info, hslot, -⟩, -⟩ := hc
    exact .of_parts addChild .addChild (exists_place hl ⟨info, (Model.slot_eq_ok.1 hslot).1⟩)
      (hchunk new List.mem_cons_self) (fun _ _ => rfl) fun _ _ => rfl
  case childDeleted place old =>
    exact .of_part (deleteChild · old.root.id) (.deleteChild · old.root.id)
      (exists_place hl (Model.featureAt_of_childAt hc.1)) (fun _ => rfl) fun _ _ => rfl
  case childReplaced place new old =>
    exact .of_parts (replaceChild · old.root.id) (.replaceChild · old.root.id)
      (exists_place hl (Model.featureAt_of_childAt hc.1)) (hchunk new List.mem_cons_self)
      (fun _ _ => rfl) fun _ _ => rfl
  -- The command leaves the source out, so it is located in the model.
  case childMoved shift moved =>
    obtain ⟨⟨n, info, hslot, -⟩, hsource, -⟩ := hc
    exact .of_part (fun s => moveChild (.ofShift s) moved) (.moveChild · moved)
      (exists_destination hl hnodes hsource ⟨info, (Model.slot_eq_ok.1 hslot).1⟩) (fun _ => rfl)
      fun s hs => congrArg ("ChildMoved" ++ ·) ((reach_ofShift s).trans (Shift.reach_rename hs _))
  case childMovedAndReplaced shift moved old =>
    obtain ⟨hat, hsource, -⟩ := hc
    exact .of_part (fun s => moveAndReplaceChild (.ofShift s) moved old.root.id)
      (.moveAndReplaceChild · moved old.root.id)
      (exists_destination hl hnodes hsource (Model.featureAt_of_childAt hat)) (fun _ => rfl)
      fun s hs => congrArg ("ChildMovedAndReplaced" ++ ·)
        ((reach_ofShift s).trans (Shift.reach_rename hs _))

include hl hc htree in
/-- A change of an annotation can be told as a command, with as much of the place as cannot be
    found. -/
theorem Command.conveys_annotation (hs : c.subject = Subject.annotation) :
    Conveys (ofChange m.types c) (toEdit m) changeKind c.travelled.edit c.kind := by
  have hchunk := exists_chunk hl hc htree
  cases c <;> cases hs
  case annotationDeleted => exact ⟨_, rfl, rfl, rfl⟩
  case annotationAdded place new =>
    exact .of_part (Command.addAnnotation place) (Edit.addAnnotation place)
      (hchunk new List.mem_cons_self) (fun _ => rfl) fun _ _ => rfl
  case annotationReplaced place new old =>
    exact .of_part (Command.replaceAnnotation place old.root.id)
      (Edit.replaceAnnotation place old.root.id) (hchunk new List.mem_cons_self) (fun _ => rfl)
      fun _ _ => rfl
  case annotationMoved shift moved =>
    refine ⟨Command.moveAnnotation (.ofShift shift) moved, rfl, ?_, ?_⟩
    · rw [toEdit, annotationDestination_ofShift hc.2.1]
      rfl
    · exact congrArg ("AnnotationMoved" ++ ·) (reach_ofAnnotationShift shift)
  case annotationMovedAndReplaced shift moved old =>
    refine ⟨Command.moveAndReplaceAnnotation (.ofShift shift) moved old.root.id, rfl, ?_, ?_⟩
    · rw [toEdit, annotationDestination_ofShift hc.2.1]
      rfl
    · exact congrArg ("AnnotationMovedAndReplaced" ++ ·) (reach_ofAnnotationShift shift)

include hl hc in
/-- A change of an entry can be told as a command, with all the places that it names. -/
theorem Command.conveys_entry (hs : c.subject = .entry) :
    Conveys (ofChange m.types c) (toEdit m) changeKind c.travelled.edit c.kind := by
  cases c <;> cases hs
  -- An entry that may stand there says something, so the reader takes it.
  case entryAdded place new =>
    obtain ⟨⟨n, info, hslot, -⟩, hnew⟩ := hc
    exact .of_parts addEntry .addEntry (exists_place hl ⟨info, (Model.slot_eq_ok.1 hslot).1⟩)
      (exists_entry hnew) (fun _ _ => rfl) fun _ _ => rfl
  case entryDeleted place old =>
    exact .of_part deleteEntry .deleteEntry (exists_place hl (Model.featureAt_of_entryAt hc))
      (fun _ => rfl) fun _ _ => rfl
  case entryChanged place new old =>
    exact .of_parts changeEntry .changeEntry
      (exists_place hl (Model.featureAt_of_entryAt hc.1)) (exists_entry hc.2) (fun _ _ => rfl)
      fun _ _ => rfl
  case entryMoved shift moved =>
    obtain ⟨⟨n, info, hslot, -⟩, hsource, -⟩ := hc
    exact .of_part (b := shift) moveEntry (fun s => .moveEntry s.target s.source)
      (exists_shift hl ⟨info, (Model.slot_eq_ok.1 hslot).1⟩ (Model.featureAt_of_entryAt hsource))
      (fun _ => rfl) fun s hs => congrArg ("EntryMoved" ++ ·) (Shift.reach_rename hs _)
  case entryMovedAndReplaced shift moved old =>
    obtain ⟨hsource, htarget, -⟩ := hc
    exact .of_part (b := shift) moveAndReplaceEntry
      (fun s => .moveAndReplaceEntry s.target s.source)
      (exists_shift hl (Model.featureAt_of_entryAt htarget) (Model.featureAt_of_entryAt hsource))
      (fun _ => rfl)
      fun s hs => congrArg ("EntryMovedAndReplaced" ++ ·) (Shift.reach_rename hs _)

include hl hc in
/-- A change of one half of an entry can be told as a command by the place of the entry. -/
theorem Command.conveys_half (hs : c.subject = .half) :
    Conveys (ofChange m.types c) (toEdit m) changeKind c.travelled.edit c.kind := by
  cases c <;> cases hs
  case resolveInfoAdded place new target =>
    obtain ⟨e, he⟩ := hc
    exact .of_part (addResolveInfo · new) (.addResolveInfo · new)
      (exists_place hl (Model.featureAt_of_entryAt he)) (fun _ => rfl) fun _ _ => rfl
  case resolveInfoDeleted place target old =>
    obtain ⟨e, he⟩ := hc
    exact .of_part deleteResolveInfo .deleteResolveInfo
      (exists_place hl (Model.featureAt_of_entryAt he)) (fun _ => rfl) fun _ _ => rfl
  case resolveInfoChanged place new target old =>
    obtain ⟨e, he⟩ := hc
    exact .of_part (changeResolveInfo · new) (.changeResolveInfo · new)
      (exists_place hl (Model.featureAt_of_entryAt he)) (fun _ => rfl) fun _ _ => rfl
  case targetAdded place new info =>
    obtain ⟨⟨e, he⟩, -⟩ := hc
    exact .of_part (addTarget · new) (.addTarget · new)
      (exists_place hl (Model.featureAt_of_entryAt he)) (fun _ => rfl) fun _ _ => rfl
  case targetDeleted place info old =>
    obtain ⟨e, he⟩ := hc
    exact .of_part deleteTarget .deleteTarget
      (exists_place hl (Model.featureAt_of_entryAt he)) (fun _ => rfl) fun _ _ => rfl
  case targetChanged place new info old =>
    obtain ⟨⟨e, he⟩, -⟩ := hc
    exact .of_part (changeTarget · new) (.changeTarget · new)
      (exists_place hl (Model.featureAt_of_entryAt he)) (fun _ => rfl) fun _ _ => rfl

include hl hnodes hc htree in
/-- A change that fits has a command, which asks for the edit that the change stands for. -/
theorem Command.conveys : Conveys (ofChange m.types c) (toEdit m) changeKind c.travelled.edit
    c.kind := by
  cases hs : c.subject with
  | node => exact conveys_node hl hc htree hs
  | property => exact conveys_property hl hc hs
  | child => exact conveys_child hl hnodes hc htree hs
  | annotation => exact conveys_annotation hl hc htree hs
  | entry => exact conveys_entry hl hc hs
  | half => exact conveys_half hl hc hs

/-! ## Events -/

include hl hnodes hc htree in
/-- A change of a whole node can be told as an event, and so can the classifier before it, which is
    registered because nodes are typed. -/
theorem Event.conveys_node (hs : c.subject = .node) :
    Conveys (ofChange m.types c) (toEdit m) kind c.travelled.edit c.kind := by
  have hchunk := exists_chunk hl hc htree
  cases c <;> cases hs
  case partitionAdded tree =>
    exact .of_part partitionAdded .addPartition (hchunk tree List.mem_cons_self) (fun _ => rfl)
      fun _ _ => rfl
  case partitionDeleted => exact ⟨_, rfl, rfl, rfl⟩
  case classifierChanged id new old =>
    -- An event tells the former classifier too, which is registered because nodes are typed.
    obtain ⟨hnew, n, hn, hold⟩ := hc
    obtain ⟨p, hp, hresolve⟩ := exists_classifier hl hnew
    obtain ⟨q, hq, -⟩ := exists_classifier hl (hold ▸ (hnodes id n hn).classifier)
    refine ⟨.classifierChanged id p q, ?_, ?_, rfl⟩
    · rw [ofChange, hp, ok_bind, hq]
      rfl
    · rw [toEdit, hresolve]
      rfl

include hl hc in
/-- A change of a property can be told as an event, with the texts of both values. -/
theorem Event.conveys_property (hs : c.subject = .property) :
    Conveys (ofChange m.types c) (toEdit m) kind c.travelled.edit c.kind := by
  cases c <;> cases hs
  case propertyAdded id property new =>
    obtain ⟨n, info, hslot, hvalue⟩ := hc
    exact .of_part (b := (property, new)) (propertyAdded id · new.text)
      (fun v => .addProperty id v.1 v.2)
      (exists_value hl (Model.slot_eq_ok.1 hslot).1 hvalue) (fun _ => rfl) fun _ _ => rfl
  case propertyChanged id property new old =>
    obtain ⟨n, info, hslot, hvalue⟩ := hc
    exact .of_part (b := (property, new)) (propertyChanged id · new.text old.text)
      (fun v => .changeProperty id v.1 v.2)
      (exists_value hl (Model.slot_eq_ok.1 hslot).1 hvalue) (fun _ => rfl) fun _ _ => rfl
  case propertyDeleted id property old =>
    obtain ⟨n, info, hslot, -⟩ := hc
    exact .of_part (propertyDeleted id · old.text) (.deleteProperty id)
      (exists_feature hl ⟨info, (Model.slot_eq_ok.1 hslot).1⟩) (fun _ => rfl) fun _ _ => rfl

include hl hnodes hc htree in
/-- A change of a child can be told as an event, with the place where it has been and the ids of
    what goes. -/
theorem Event.conveys_child (hs : c.subject = .child) :
    Conveys (ofChange m.types c) (toEdit m) kind c.travelled.edit c.kind := by
  have hchunk := exists_chunk hl hc htree
  cases c <;> cases hs
  case childAdded place new =>
    obtain ⟨⟨n, info, hslot, -⟩, -⟩ := hc
    exact .of_parts childAdded .addChild (exists_place hl ⟨info, (Model.slot_eq_ok.1 hslot).1⟩)
      (hchunk new List.mem_cons_self) (fun _ _ => rfl) fun _ _ => rfl
  case childDeleted place old =>
    exact .of_part (childDeleted · (.ofSubtree old)) (.deleteChild · old.root.id)
      (exists_place hl (Model.featureAt_of_childAt hc.1)) (fun _ => rfl) fun _ _ => rfl
  case childReplaced place new old =>
    exact .of_parts (childReplaced · · (.ofSubtree old)) (.replaceChild · old.root.id)
      (exists_place hl (Model.featureAt_of_childAt hc.1)) (hchunk new List.mem_cons_self)
      (fun _ _ => rfl) fun _ _ => rfl
  -- An event tells the whole move, and the edit is read off its target.
  case childMoved shift moved =>
    obtain ⟨⟨n, info, hslot, -⟩, hsource, -⟩ := hc
    exact .of_part (childMoved · moved) (.moveChild · moved)
      (exists_target hl ⟨info, (Model.slot_eq_ok.1 hslot).1⟩
        (Model.featureAt_of_locateChild hnodes hsource)) (fun _ => rfl)
      fun s hs => congrArg ("ChildMoved" ++ ·) (Shift.reach_rename hs _)
  case childMovedAndReplaced shift moved old =>
    obtain ⟨hat, hsource, -⟩ := hc
    exact .of_part (childMovedAndReplaced · moved (.ofSubtree old))
      (.moveAndReplaceChild · moved old.root.id)
      (exists_target hl (Model.featureAt_of_childAt hat)
        (Model.featureAt_of_locateChild hnodes hsource)) (fun _ => rfl)
      fun s hs => congrArg ("ChildMovedAndReplaced" ++ ·) (Shift.reach_rename hs _)

include hl hc htree in
/-- A change of an annotation can be told as an event, in the same way as that of a child. -/
theorem Event.conveys_annotation (hs : c.subject = Subject.annotation) :
    Conveys (ofChange m.types c) (toEdit m) kind c.travelled.edit c.kind := by
  have hchunk := exists_chunk hl hc htree
  cases c <;> cases hs
  case annotationDeleted | annotationMoved | annotationMovedAndReplaced =>
    exact ⟨_, rfl, rfl, rfl⟩
  case annotationAdded place new =>
    exact .of_part (annotationAdded place) (Edit.addAnnotation place)
      (hchunk new List.mem_cons_self) (fun _ => rfl) fun _ _ => rfl
  case annotationReplaced place new old =>
    exact .of_part (annotationReplaced place · (.ofSubtree old))
      (Edit.replaceAnnotation place old.root.id) (hchunk new List.mem_cons_self) (fun _ => rfl)
      fun _ _ => rfl

include hl hc in
/-- A change of an entry can be told as an event, with the entries that were there before. -/
theorem Event.conveys_entry (hs : c.subject = .entry) :
    Conveys (ofChange m.types c) (toEdit m) kind c.travelled.edit c.kind := by
  cases c <;> cases hs
  case entryAdded place new =>
    obtain ⟨⟨n, info, hslot, -⟩, hnew⟩ := hc
    exact .of_parts entryAdded .addEntry (exists_place hl ⟨info, (Model.slot_eq_ok.1 hslot).1⟩)
      (exists_entry hnew) (fun _ _ => rfl) fun _ _ => rfl
  case entryDeleted place old =>
    exact .of_part (entryDeleted · old) .deleteEntry
      (exists_place hl (Model.featureAt_of_entryAt hc)) (fun _ => rfl) fun _ _ => rfl
  case entryChanged place new old =>
    exact .of_parts (entryChanged · · old) .changeEntry
      (exists_place hl (Model.featureAt_of_entryAt hc.1)) (exists_entry hc.2) (fun _ _ => rfl)
      fun _ _ => rfl
  case entryMoved shift moved =>
    obtain ⟨⟨n, info, hslot, -⟩, hsource, -⟩ := hc
    exact .of_part (b := shift) (entryMoved · moved) (fun s => .moveEntry s.target s.source)
      (exists_shift hl ⟨info, (Model.slot_eq_ok.1 hslot).1⟩ (Model.featureAt_of_entryAt hsource))
      (fun _ => rfl) fun s hs => congrArg ("EntryMoved" ++ ·) (Shift.reach_rename hs _)
  case entryMovedAndReplaced shift moved old =>
    obtain ⟨hsource, htarget, -⟩ := hc
    exact .of_part (b := shift) (entryMovedAndReplaced · moved old)
      (fun s => .moveAndReplaceEntry s.target s.source)
      (exists_shift hl (Model.featureAt_of_entryAt htarget) (Model.featureAt_of_entryAt hsource))
      (fun _ => rfl)
      fun s hs => congrArg ("EntryMovedAndReplaced" ++ ·) (Shift.reach_rename hs _)

include hl hc in
/-- A change of one half of an entry can be told as an event, together with the other half. -/
theorem Event.conveys_half (hs : c.subject = .half) :
    Conveys (ofChange m.types c) (toEdit m) kind c.travelled.edit c.kind := by
  cases c <;> cases hs
  case resolveInfoAdded place new target =>
    obtain ⟨e, he⟩ := hc
    exact .of_part (resolveInfoAdded · new target) (.addResolveInfo · new)
      (exists_place hl (Model.featureAt_of_entryAt he)) (fun _ => rfl) fun _ _ => rfl
  case resolveInfoDeleted place target old =>
    obtain ⟨e, he⟩ := hc
    exact .of_part (resolveInfoDeleted · target old) .deleteResolveInfo
      (exists_place hl (Model.featureAt_of_entryAt he)) (fun _ => rfl) fun _ _ => rfl
  case resolveInfoChanged place new target old =>
    obtain ⟨e, he⟩ := hc
    exact .of_part (resolveInfoChanged · new target old) (.changeResolveInfo · new)
      (exists_place hl (Model.featureAt_of_entryAt he)) (fun _ => rfl) fun _ _ => rfl
  case targetAdded place new info =>
    obtain ⟨⟨e, he⟩, -⟩ := hc
    exact .of_part (targetAdded · new info) (.addTarget · new)
      (exists_place hl (Model.featureAt_of_entryAt he)) (fun _ => rfl) fun _ _ => rfl
  case targetDeleted place info old =>
    obtain ⟨e, he⟩ := hc
    exact .of_part (targetDeleted · info old) .deleteTarget
      (exists_place hl (Model.featureAt_of_entryAt he)) (fun _ => rfl) fun _ _ => rfl
  case targetChanged place new info old =>
    obtain ⟨⟨e, he⟩, -⟩ := hc
    exact .of_part (targetChanged · new info old) (.changeTarget · new)
      (exists_place hl (Model.featureAt_of_entryAt he)) (fun _ => rfl) fun _ _ => rfl

include hl hnodes hc htree in
/-- A change that fits has an event, which tells of the edit that the change stands for. -/
theorem Event.conveys : Conveys (ofChange m.types c) (toEdit m) kind c.travelled.edit
    c.kind := by
  cases hs : c.subject with
  | node => exact conveys_node hl hnodes hc htree hs
  | property => exact conveys_property hl hc hs
  | child => exact conveys_child hl hnodes hc htree hs
  | annotation => exact conveys_annotation hl hc htree hs
  | entry => exact conveys_entry hl hc hs
  | half => exact conveys_half hl hc hs

end Protocol

end DeltaForest
