import DeltaForest.Proofs.Contents
import DeltaForest.Proofs.Subjects
import DeltaForest.Protocol.Event.Fields

/-!
# Events come back

As for commands, the reader for the kind of an event takes the fields of the event and makes the
event of them again (`Event.takes`), and so events come back with their sources and notes, singly
and bundled, and with their numbers.
-/

namespace DeltaForest

open Fields Fields.Reader

variable {room : Nat}

namespace Protocol

/-- A subtree that is gone is read from its root and the list of ids below it. -/
theorem Removal.takes (root descendants : String) (r : Removal) :
    (Removal.reader root descendants).Takes (room + 1) r (r.fields root descendants) :=
  .cons (.nodeId r.root) (.cons (.list fun id _ => .nodeId id) (.pure _))

namespace Event

/-- The positions that an event names. -/
def indices : Event → List Nat
  | childAdded place _ | childDeleted place _ | childReplaced place .. => [place.index]
  | annotationAdded place _ | annotationDeleted place _ | annotationReplaced place .. =>
    [place.index]
  | entryAdded place _ | entryDeleted place _ | entryChanged place .. => [place.index]
  | resolveInfoAdded place .. | resolveInfoDeleted place .. | resolveInfoChanged place .. =>
    [place.index]
  | targetAdded place .. | targetDeleted place .. | targetChanged place .. => [place.index]
  | childMoved shift _ | childMovedAndReplaced shift .. => shift.indices
  | annotationMoved shift _ | annotationMovedAndReplaced shift .. => shift.indices
  | entryMoved shift _ | entryMovedAndReplaced shift .. => shift.indices
  | partitionAdded _ | partitionDeleted _ | classifierChanged .. => []
  | propertyAdded .. | propertyDeleted .. | propertyChanged .. => []

/-! ## Kind by kind -/

/-- The kind of an event is one for which there is a reader. -/
theorem kind_mem_kinds (e : Event) : e.kind ∈ kinds := by
  cases e with
  | childMoved shift | childMovedAndReplaced shift => cases shift <;> exact of_decide_eq_true rfl
  | annotationMoved shift | annotationMovedAndReplaced shift =>
    cases shift <;> exact of_decide_eq_true rfl
  | entryMoved shift | entryMovedAndReplaced shift => cases shift <;> exact of_decide_eq_true rfl
  | _ => exact of_decide_eq_true rfl

/-- The fields of an event have names of their own. -/
theorem fit_fields (e : Event) : Fit (names e.fields) := by
  cases e with
  | childMoved shift | childMovedAndReplaced shift => cases shift <;> exact of_decide_eq_true rfl
  | annotationMoved shift | annotationMovedAndReplaced shift =>
    cases shift <;> exact of_decide_eq_true rfl
  | entryMoved shift | entryMovedAndReplaced shift => cases shift <;> exact of_decide_eq_true rfl
  | _ => exact of_decide_eq_true rfl

/-- A place of an annotation is read from an id and a position. -/
theorem takes_annotationPlace {place : AnnotationPlace} (h : place.index < UInt64.size) :
    annotationPlace.Takes room place
      [("parent", toData place.owner), ("index", toData place.index)] :=
  .cons (.nodeId place.owner) (.cons (.nat h) (.pure _))

/-- The reader for the move of a child that goes so far. -/
def childShiftReader : Shift Pointer → Reader (Shift Pointer × NodeId)
  | .elsewhere .. => childElsewhere
  | .sameOwner .. => childSameOwner
  | .sameList .. => childSameList

/-- The move of a child is read from as many fields as it goes far. -/
theorem takes_childShift {shift : Shift Pointer} (h : ∀ i ∈ shift.indices, i < UInt64.size)
    (moved : NodeId) :
    (childShiftReader shift).Takes (room + 1) (shift, moved) (childShiftFields moved shift) := by
  cases shift with
  | elsewhere target source =>
    have hnew : target.index < UInt64.size := h _ (.head _)
    have hold : source.index < UInt64.size := h _ (.tail _ (.head _))
    exact (PlaceNames.newChild.takes hnew).bind <| .cons (.nodeId moved) <|
      (PlaceNames.oldChild.takes hold).map _
  | sameOwner owner newFeature newIndex oldFeature oldIndex =>
    have hnew : newIndex < UInt64.size := h _ (.head _)
    have hold : oldIndex < UInt64.size := h _ (.tail _ (.head _))
    exact .cons (.nodeId owner) <| .cons (.pointer newFeature) <| .cons (.nat hnew) <|
      .cons (.nodeId moved) <| .cons (.pointer oldFeature) <| .cons (.nat hold) <| .pure _
  | sameList owner feature newIndex oldIndex =>
    have hnew : newIndex < UInt64.size := h _ (.head _)
    have hold : oldIndex < UInt64.size := h _ (.tail _ (.head _))
    exact .cons (.nodeId owner) <| .cons (.pointer feature) <| .cons (.nat hnew) <|
      .cons (.nodeId moved) <| .cons (.nat hold) <| .pure _

/-- The reader for the move of an annotation that goes so far. -/
def annotationShiftReader : AnnotationShift → Reader (AnnotationShift × NodeId)
  | .elsewhere .. => annotationElsewhere
  | .sameOwner .. => annotationSameOwner

/-- The move of an annotation is read from as many fields as it goes far. -/
theorem takes_annotationShift {shift : AnnotationShift}
    (h : ∀ i ∈ shift.indices, i < UInt64.size) (moved : NodeId) :
    (annotationShiftReader shift).Takes (room + 1) (shift, moved)
      (annotationShiftFields moved shift) := by
  cases shift with
  | elsewhere target source =>
    have hnew : target.index < UInt64.size := h _ (.head _)
    have hold : source.index < UInt64.size := h _ (.tail _ (.head _))
    exact .cons (.nodeId target.owner) <| .cons (.nat hnew) <| .cons (.nodeId moved) <|
      .cons (.nodeId source.owner) <| .cons (.nat hold) <| .pure _
  | sameOwner owner newIndex oldIndex =>
    have hnew : newIndex < UInt64.size := h _ (.head _)
    have hold : oldIndex < UInt64.size := h _ (.tail _ (.head _))
    exact .cons (.nodeId owner) <| .cons (.nat hnew) <| .cons (.nodeId moved) <|
      .cons (.nat hold) <| .pure _

/-- An event about a whole node is read from a chunk, from the ids of what is gone, or from two
    pointers. -/
theorem takes_node (e : Event) (hs : e.subject = .node) :
    (reader e.kind).Takes (room + 7) e e.fields := by
  cases e <;> cases hs
  case partitionAdded new => exact .cons (.chunk new) (.pure _)
  case partitionDeleted old => exact (old.takes _ _).map _
  case classifierChanged node new old =>
    exact .cons (.nodeId node) (.cons (.pointer new) (.cons (.pointer old) (.pure _)))

/-- An event about a property is read from an id, a pointer and the texts of the values. -/
theorem takes_property (e : Event) (hs : e.subject = .property) :
    (reader e.kind).Takes (room + 7) e e.fields := by
  cases e <;> cases hs
  case propertyAdded node property value | propertyDeleted node property value =>
    exact .cons (.nodeId node) (.cons (.pointer property) (.cons (.string value) (.pure _)))
  case propertyChanged node property new old =>
    exact .cons (.nodeId node) <| .cons (.pointer property) <| .cons (.string new) <|
      .cons (.string old) <| .pure _

/-- An event about a child is read from its places and from what has come and gone. How far a move
    goes decides on its kind and, in step with it, on the reader for the move. -/
theorem takes_child (e : Event) (hs : e.subject = .child)
    (h : ∀ i ∈ e.indices, i < UInt64.size) :
    (reader e.kind).Takes (room + 7) e e.fields := by
  cases e <;> cases hs
  case childAdded place new =>
    exact .cons (.nodeId place.owner) <| .cons (.chunk new) <| .cons (.pointer place.feature) <|
      .cons (.nat (h place.index (.head _))) <| .pure _
  case childDeleted place old =>
    exact (old.takes _ _).bind ((PlaceNames.child.takes (h _ (.head _))).map _)
  case childReplaced place new old =>
    exact .cons (.chunk new) <| (old.takes _ _).bind <|
      (PlaceNames.child.takes (h _ (.head _))).map _
  case childMoved shift moved =>
    have hreader : reader (childMoved shift moved).kind =
        childMovedReader (childShiftReader shift) := by cases shift <;> rfl
    rw [hreader]
    exact (takes_childShift h moved).map _
  case childMovedAndReplaced shift moved old =>
    have hreader : reader (childMovedAndReplaced shift moved old).kind =
        childMovedAndReplacedReader (childShiftReader shift) := by cases shift <;> rfl
    rw [hreader]
    exact (takes_childShift h moved).bind ((old.takes _ _).map _)

/-- An event about an annotation is read as one about a child, but without pointers. -/
theorem takes_annotation (e : Event) (hs : e.subject = Subject.annotation)
    (h : ∀ i ∈ e.indices, i < UInt64.size) :
    (reader e.kind).Takes (room + 7) e e.fields := by
  cases e <;> cases hs
  case annotationAdded place new =>
    exact .cons (.nodeId place.owner) <| .cons (.chunk new) <|
      .cons (.nat (h place.index (.head _))) <| .pure _
  case annotationDeleted place old =>
    exact (old.takes _ _).bind ((takes_annotationPlace (h _ (.head _))).map _)
  case annotationReplaced place new old =>
    exact .cons (.chunk new) <| (old.takes _ _).bind <|
      (takes_annotationPlace (h _ (.head _))).map _
  case annotationMoved shift moved =>
    have hreader : reader (annotationMoved shift moved).kind =
        annotationMovedReader (annotationShiftReader shift) := by cases shift <;> rfl
    rw [hreader]
    exact (takes_annotationShift h moved).map _
  case annotationMovedAndReplaced shift moved old =>
    have hreader : reader (annotationMovedAndReplaced shift moved old).kind =
        annotationMovedAndReplacedReader (annotationShiftReader shift) := by cases shift <;> rfl
    rw [hreader]
    exact (takes_annotationShift h moved).bind ((old.takes _ _).map _)

/-- An event about an entry is read from its places and the entries that have come and gone. -/
theorem takes_entry (e : Event) (hs : e.subject = .entry)
    (h : ∀ i ∈ e.indices, i < UInt64.size) :
    (reader e.kind).Takes (room + 7) e e.fields := by
  cases e <;> cases hs
  case entryAdded place new =>
    exact (PlaceNames.entry.takes (h _ (.head _))).bind ((EntryNames.new.takes new).map _)
  case entryDeleted place old =>
    exact (PlaceNames.entry.takes (h _ (.head _))).bind ((EntryNames.deleted.takes old).map _)
  case entryChanged place new old =>
    exact (PlaceNames.entry.takes (h _ (.head _))).bind <|
      (EntryNames.new.takes new).bind ((EntryNames.old.takes old).map _)
  case entryMoved shift moved =>
    have hreader : reader (entryMoved shift moved).kind =
        entryMovedReader (entryShiftReader shift) := by cases shift <;> rfl
    rw [hreader]
    exact (takes_entryShift h).bind ((EntryNames.moved.takes moved).map _)
  case entryMovedAndReplaced shift moved old =>
    have hreader : reader (entryMovedAndReplaced shift moved old).kind =
        entryMovedAndReplacedReader (entryShiftReader shift) := by cases shift <;> rfl
    rw [hreader, fields, List.append_assoc]
    exact (takes_entryShift h).bind <|
      (EntryNames.moved.takes moved).bind ((EntryNames.replaced.takes old).map _)

/-- An event about one half of an entry is read from a place, both halves, and what was there
    before. -/
theorem takes_half (e : Event) (hs : e.subject = .half)
    (h : ∀ i ∈ e.indices, i < UInt64.size) :
    (reader e.kind).Takes (room + 7) e e.fields := by
  cases e <;> cases hs
  case resolveInfoAdded place new target =>
    exact (PlaceNames.entry.takes (h _ (.head _))).bind <|
      .cons (.string new) (.cons (.nodeId? target) (.pure _))
  case resolveInfoDeleted place target old =>
    exact (PlaceNames.entry.takes (h _ (.head _))).bind <|
      .cons (.nodeId? target) (.cons (.string old) (.pure _))
  case resolveInfoChanged place new target old =>
    exact (PlaceNames.entry.takes (h _ (.head _))).bind <|
      .cons (.string new) <| .cons (.nodeId? target) <| .cons (.string old) <| .pure _
  case targetAdded place new resolveInfo =>
    exact (PlaceNames.entry.takes (h _ (.head _))).bind <|
      .cons (.nodeId new) (.cons (.string? resolveInfo) (.pure _))
  case targetDeleted place resolveInfo old =>
    exact (PlaceNames.entry.takes (h _ (.head _))).bind <|
      .cons (.string? resolveInfo) (.cons (.nodeId old) (.pure _))
  case targetChanged place new resolveInfo old =>
    exact (PlaceNames.entry.takes (h _ (.head _))).bind <|
      .cons (.nodeId new) <| .cons (.string? resolveInfo) <| .cons (.nodeId old) <| .pure _

/-- The reader for the kind of an event takes its fields and makes the event of them. -/
theorem takes (e : Event) (h : ∀ i ∈ e.indices, i < UInt64.size) :
    (reader e.kind).Takes (room + 7) e e.fields := by
  cases hs : e.subject with
  | node => exact e.takes_node hs
  | property => exact e.takes_property hs
  | child => exact e.takes_child hs h
  | annotation => exact e.takes_annotation hs h
  | entry => exact e.takes_entry hs h
  | half => exact e.takes_half hs h

end Event

/-! ## With sources and notes -/

namespace EventPart

variable {part : EventPart} {src : Source}

theorem returns_origins : Returns (room + 2) part.origins :=
  .list fun source _ => .commandSource source

/-- The fields of an event with its sources travel. -/
theorem portable_fields (h : ∀ i ∈ part.event.indices, i < UInt64.size) :
    ∀ f ∈ part.fields, f.2.Portable (room + 7) :=
  portable_flat returns_origins (part.event.takes h).portable

theorem isShort_fields : ∀ name ∈ names part.fields, isShort name :=
  isShort_flat (by decide) part.event.fit_fields

/-- An event leaves the name for the shape of a message free. -/
theorem shape_notMem_fields : "shape" ∉ names part.fields :=
  shape_notMem_flat (by decide) part.event.fit_fields

/-- An event with its sources is read from a flat record. -/
theorem ofFields?_fields (h : ∀ i ∈ part.event.indices, i < UInt64.size)
    (hsrc : src.Holds (room + 7)) : ofFields? src (labels part.fields) = some part :=
  congrArg (Option.map _) (flatFields?_flat (by decide) returns_origins
    part.event.kind_mem_kinds part.event.fit_fields (part.event.takes h) hsrc)

/-- A part of an event comes back as a record. -/
theorem returns (h : ∀ i ∈ part.event.indices, i < UInt64.size) : Returns (room + 8) part where
  portable := .object (portable_fields h)
  read src hsrc := by
    have hread : ofData src (toData part) =
        (Data.labels? src (Data.entries part.fields)).bind (ofFields? src.inside) := by
      cases src <;> rfl
    rw [hread, labels?_entries isShort_fields, Option.bind_some, ofFields?_fields h hsrc.inside]

end EventPart

namespace EventMessage

/-- The positions that a message names. -/
def indices (message : EventMessage) : List Nat :=
  message.parts.flatMap fun part => part.event.indices

theorem returns {message : EventMessage} (h : ∀ i ∈ message.indices, i < UInt64.size) :
    Returns (room + 10) message := by
  -- The indices of a message are those of its parts.
  have hparts : ∀ part ∈ message.parts, ∀ i ∈ part.event.indices, i < UInt64.size :=
    fun part hpart i hi => h i (List.mem_flatMap.2 ⟨part, hpart, hi⟩)
  -- A part stands flat in its message, and a bundle lists its parts.
  cases message with
  | single part =>
    have hpart := hparts part (.head _)
    have hread : EventPart.ofFields? .part (labels part.fields) = some part :=
      EventPart.ofFields?_fields hpart (Source.holds_part : Source.part.Holds (room + 7))
    have hportable : ∀ f ∈ part.fields, f.2.Portable (room + 9) := EventPart.portable_fields hpart
    refine returns_shape (by decide : "single" ∈ _) rfl EventPart.shape_notMem_fields
      EventPart.isShort_fields hportable fun src hunion hword => ?_
    refine (congrArg (Option.bind · _) hunion).trans ?_
    simp only [Option.bind_some, hword, hread, Option.map_some]
  | composite parts note =>
    have hreturns : Returns (room + 9) parts :=
      .list fun part hpart => EventPart.returns (hparts part hpart)
    refine returns_shape (by decide : "composite" ∈ _) rfl shape_notMem_bundle isShort_bundle
      (portable_bundle hreturns) fun src hunion hword => ?_
    refine (congrArg (Option.bind · _) hunion).trans ?_
    simp only [Option.bind_some, hword]
    exact whole_bundle hreturns Source.holds_part composite

end EventMessage

/-- An event comes back with its number. -/
theorem SequencedEvent.returns {e : SequencedEvent}
    (h : ∀ i ∈ e.event.indices, i < UInt64.size) : Returns (room + 11) e :=
  Takes.returns rfl (fun _ _ => rfl) (of_decide_eq_true rfl)
    (.cons (.uint64 e.number) (.cons (EventMessage.returns h) (.pure _)))

end Protocol

end DeltaForest
