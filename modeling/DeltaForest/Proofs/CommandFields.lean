import DeltaForest.Proofs.Contents
import DeltaForest.Proofs.Subjects
import DeltaForest.Protocol.Command.Fields

/-!
# Commands come back

The reader for the kind of a command takes the fields of the command, all of them and in their
order, and makes the command of them again (`Command.takes`). This is one case for each kind. With
names that do not clash with each other or with any others, it makes commands come back in flat
records and unions: with their ids and notes, singly and bundled.
-/

namespace DeltaForest

open Fields Fields.Reader

variable {room : Nat}

namespace Protocol

/-! ## Positions -/

/-- The positions that the place where a child is to go names. -/
def Destination.indices : Destination → List Nat
  | elsewhere place => [place.index]
  | sameOwner _ index | sameList index => [index]

/-- The positions that the place where an annotation is to go names. -/
def AnnotationDestination.indices : AnnotationDestination → List Nat
  | elsewhere place => [place.index]
  | sameOwner index => [index]

namespace Command

/-- The positions that a command names. -/
def indices : Command → List Nat
  | addChild place _ | deleteChild place _ | replaceChild place .. => [place.index]
  | addAnnotation place _ | deleteAnnotation place _ | replaceAnnotation place .. => [place.index]
  | addEntry place _ | deleteEntry place | changeEntry place _ => [place.index]
  | addResolveInfo place _ | deleteResolveInfo place | changeResolveInfo place _ => [place.index]
  | addTarget place _ | deleteTarget place | changeTarget place _ => [place.index]
  | moveChild target _ | moveAndReplaceChild target .. => target.indices
  | moveAnnotation target _ | moveAndReplaceAnnotation target .. => target.indices
  | moveEntry shift | moveAndReplaceEntry shift => shift.indices
  | addPartition _ | deletePartition _ | changeClassifier .. => []
  | addProperty .. | deleteProperty .. | changeProperty .. => []

/-! ## Kind by kind -/

/-- The kind of a command is one for which there is a reader. -/
theorem kind_mem_kinds (c : Command) : c.kind ∈ kinds := by
  cases c with
  | moveChild target | moveAndReplaceChild target =>
    cases target <;> exact of_decide_eq_true rfl
  | moveAnnotation target | moveAndReplaceAnnotation target =>
    cases target <;> exact of_decide_eq_true rfl
  | moveEntry shift | moveAndReplaceEntry shift => cases shift <;> exact of_decide_eq_true rfl
  | _ => exact of_decide_eq_true rfl

/-- The fields of a command have names of their own. -/
theorem fit_fields (c : Command) : Fit (names c.fields) := by
  cases c with
  | moveChild target | moveAndReplaceChild target =>
    cases target <;> exact of_decide_eq_true rfl
  | moveAnnotation target | moveAndReplaceAnnotation target =>
    cases target <;> exact of_decide_eq_true rfl
  | moveEntry shift | moveAndReplaceEntry shift => cases shift <;> exact of_decide_eq_true rfl
  | _ => exact of_decide_eq_true rfl

/-- A place of an annotation is read from an id and a position. -/
theorem takes_annotationPlace {place : AnnotationPlace} (h : place.index < UInt64.size) :
    annotationPlace.Takes room place
      [("parent", toData place.owner), ("index", toData place.index)] :=
  .cons (.nodeId place.owner) (.cons (.nat h) (.pure _))

/-- The reader for a place where a child is to go. -/
def targetReader : Destination → Reader Destination
  | .elsewhere _ => childElsewhere
  | .sameOwner .. => childSameOwner
  | .sameList _ => childSameList

/-- Where a child is to go is read from as many fields as it goes far. -/
theorem takes_target {target : Destination} (h : ∀ i ∈ target.indices, i < UInt64.size) :
    (targetReader target).Takes (room + 1) target (fields.destinationFields target) := by
  cases target with
  | elsewhere place => exact (PlaceNames.newChild.takes (h _ (.head _))).map _
  | sameOwner feature index =>
    exact .cons (.pointer feature) (.cons (.nat (h _ (.head _))) (.pure _))
  | sameList index => exact .cons (.nat (h _ (.head _))) (.pure _)

/-- The reader for a place where an annotation is to go. -/
def annotationTargetReader : AnnotationDestination → Reader AnnotationDestination
  | .elsewhere _ => annotationElsewhere
  | .sameOwner _ => annotationSameOwner

/-- Where an annotation is to go is read from as many fields as it goes far. -/
theorem takes_annotationTarget {target : AnnotationDestination}
    (h : ∀ i ∈ target.indices, i < UInt64.size) :
    (annotationTargetReader target).Takes (room + 1) target
      (fields.annotationDestinationFields target) := by
  cases target with
  | elsewhere place =>
    exact .cons (.nodeId place.owner) (.cons (.nat (h _ (.head _))) (.pure _))
  | sameOwner index => exact .cons (.nat (h _ (.head _))) (.pure _)

/-- A command about a whole node is read from a chunk, or from an id and a pointer. -/
theorem takes_node (c : Command) (hs : c.subject = .node) :
    (reader c.kind).Takes (room + 7) c c.fields := by
  cases c <;> cases hs
  case addPartition new => exact .cons (.chunk new) (.pure _)
  case deletePartition old => exact .cons (.nodeId old) (.pure _)
  case changeClassifier node new => exact .cons (.nodeId node) (.cons (.pointer new) (.pure _))

/-- A command about a property is read from an id, a pointer and a text. -/
theorem takes_property (c : Command) (hs : c.subject = .property) :
    (reader c.kind).Takes (room + 7) c c.fields := by
  cases c <;> cases hs
  case addProperty node property value | changeProperty node property value =>
    exact .cons (.nodeId node) (.cons (.pointer property) (.cons (.string value) (.pure _)))
  case deleteProperty node property =>
    exact .cons (.nodeId node) (.cons (.pointer property) (.pure _))

/-- A command about a child is read from a place or, if the child is moved, from as much of a place
    as the kind promises. -/
theorem takes_child (c : Command) (hs : c.subject = .child)
    (h : ∀ i ∈ c.indices, i < UInt64.size) :
    (reader c.kind).Takes (room + 7) c c.fields := by
  cases c <;> cases hs
  case addChild place new =>
    exact .cons (.nodeId place.owner) <| .cons (.chunk new) <| .cons (.pointer place.feature) <|
      .cons (.nat (h place.index (.head _))) <| .pure _
  case deleteChild place old =>
    exact (PlaceNames.child.takes (h _ (.head _))).bind (.cons (.nodeId old) (.pure _))
  case replaceChild place old new =>
    exact .cons (.chunk new) <| (PlaceNames.child.takes (h _ (.head _))).bind <|
      .cons (.nodeId old) <| .pure _
  case moveChild target moved =>
    have hreader : reader (moveChild target moved).kind =
        moveChildReader (targetReader target) := by cases target <;> rfl
    rw [hreader]
    exact (takes_target h).bind (.cons (.nodeId moved) (.pure _))
  case moveAndReplaceChild target moved old =>
    have hreader : reader (moveAndReplaceChild target moved old).kind =
        moveAndReplaceChildReader (targetReader target) := by cases target <;> rfl
    rw [hreader]
    exact (takes_target h).bind (.cons (.nodeId old) (.cons (.nodeId moved) (.pure _)))

/-- A command about an annotation is read as one about a child, but without a pointer. -/
theorem takes_annotation (c : Command) (hs : c.subject = Subject.annotation)
    (h : ∀ i ∈ c.indices, i < UInt64.size) :
    (reader c.kind).Takes (room + 7) c c.fields := by
  cases c <;> cases hs
  case addAnnotation place new =>
    exact .cons (.nodeId place.owner) <| .cons (.chunk new) <|
      .cons (.nat (h place.index (.head _))) <| .pure _
  case deleteAnnotation place old =>
    exact (takes_annotationPlace (h _ (.head _))).bind (.cons (.nodeId old) (.pure _))
  case replaceAnnotation place old new =>
    exact .cons (.chunk new) <| (takes_annotationPlace (h _ (.head _))).bind <|
      .cons (.nodeId old) <| .pure _
  case moveAnnotation target moved =>
    have hreader : reader (kind <| moveAnnotation target moved) =
        moveAnnotationReader (annotationTargetReader target) := by cases target <;> rfl
    rw [hreader]
    exact (takes_annotationTarget h).bind (.cons (.nodeId moved) (.pure _))
  case moveAndReplaceAnnotation target moved old =>
    have hreader : reader (kind <| moveAndReplaceAnnotation target moved old) =
        moveAndReplaceAnnotationReader (annotationTargetReader target) := by cases target <;> rfl
    rw [hreader]
    exact (takes_annotationTarget h).bind (.cons (.nodeId old) (.cons (.nodeId moved) (.pure _)))

/-- A command about an entry is read from a place, or from two if the entry is moved, and the
    entry. -/
theorem takes_entry (c : Command) (hs : c.subject = .entry)
    (h : ∀ i ∈ c.indices, i < UInt64.size) :
    (reader c.kind).Takes (room + 7) c c.fields := by
  cases c <;> cases hs
  case addEntry place new | changeEntry place new =>
    exact (PlaceNames.entry.takes (h _ (.head _))).bind ((EntryNames.new.takes new).map _)
  case deleteEntry place => exact (PlaceNames.entry.takes (h _ (.head _))).map _
  case moveEntry shift =>
    have hreader : reader (moveEntry shift).kind =
        entryShiftReader shift >>= fun shift => pure (moveEntry shift) := by cases shift <;> rfl
    rw [hreader]
    exact (takes_entryShift h).map _
  case moveAndReplaceEntry shift =>
    have hreader : reader (moveAndReplaceEntry shift).kind =
        entryShiftReader shift >>= fun shift => pure (moveAndReplaceEntry shift) := by
      cases shift <;> rfl
    rw [hreader]
    exact (takes_entryShift h).map _

/-- A command about one half of an entry is read from a place and what is new there. -/
theorem takes_half (c : Command) (hs : c.subject = .half)
    (h : ∀ i ∈ c.indices, i < UInt64.size) :
    (reader c.kind).Takes (room + 7) c c.fields := by
  cases c <;> cases hs
  case addResolveInfo place info | changeResolveInfo place info =>
    exact (PlaceNames.entry.takes (h _ (.head _))).bind (.cons (.string info) (.pure _))
  case deleteResolveInfo place | deleteTarget place =>
    exact (PlaceNames.entry.takes (h _ (.head _))).map _
  case addTarget place new | changeTarget place new =>
    exact (PlaceNames.entry.takes (h _ (.head _))).bind (.cons (.nodeId new) (.pure _))

/-- The reader for the kind of a command takes its fields and makes the command of them. -/
theorem takes (c : Command) (h : ∀ i ∈ c.indices, i < UInt64.size) :
    (reader c.kind).Takes (room + 7) c c.fields := by
  cases hs : c.subject with
  | node => exact c.takes_node hs
  | property => exact c.takes_property hs
  | child => exact c.takes_child hs h
  | annotation => exact c.takes_annotation hs h
  | entry => exact c.takes_entry hs h
  | half => exact c.takes_half hs h

end Command

/-! ## With ids and notes -/

namespace CommandPart

variable {part : CommandPart} {src : Source}

/-- The fields of a command with its id travel. -/
theorem portable_fields (h : ∀ i ∈ part.command.indices, i < UInt64.size) :
    ∀ f ∈ part.fields, f.2.Portable (room + 7) :=
  portable_flat (.commandId part.id) (part.command.takes h).portable

theorem isShort_fields : ∀ name ∈ names part.fields, isShort name :=
  isShort_flat (by decide) part.command.fit_fields

/-- A command leaves the name for the shape of a message free. -/
theorem shape_notMem_fields : "shape" ∉ names part.fields :=
  shape_notMem_flat (by decide) part.command.fit_fields

/-- A command with its id is read from a flat record. -/
theorem ofFields?_fields (h : ∀ i ∈ part.command.indices, i < UInt64.size)
    (hsrc : src.Holds (room + 7)) : ofFields? src (labels part.fields) = some part :=
  congrArg (Option.map _) (flatFields?_flat (by decide) (.commandId part.id)
    part.command.kind_mem_kinds part.command.fit_fields (part.command.takes h) hsrc)

/-- A part of a command comes back as a record. -/
theorem returns (h : ∀ i ∈ part.command.indices, i < UInt64.size) : Returns (room + 8) part where
  portable := .object (portable_fields h)
  read src hsrc := by
    have hread : ofData src (toData part) =
        (Data.labels? src (Data.entries part.fields)).bind (ofFields? src.inside) := by
      cases src <;> rfl
    rw [hread, labels?_entries isShort_fields, Option.bind_some, ofFields?_fields h hsrc.inside]

end CommandPart

namespace CommandMessage

/-- The positions that a message names. -/
def indices (message : CommandMessage) : List Nat :=
  message.parts.flatMap fun part => part.command.indices

theorem returns {message : CommandMessage} (h : ∀ i ∈ message.indices, i < UInt64.size) :
    Returns (room + 10) message := by
  -- The indices of a message are those of its parts.
  have hparts : ∀ part ∈ message.parts, ∀ i ∈ part.command.indices, i < UInt64.size :=
    fun part hpart i hi => h i (List.mem_flatMap.2 ⟨part, hpart, hi⟩)
  -- A part stands flat in its message, and a bundle lists its parts.
  cases message with
  | single part =>
    have hpart := hparts part (.head _)
    have hread : CommandPart.ofFields? .part (labels part.fields) = some part :=
      CommandPart.ofFields?_fields hpart (Source.holds_part : Source.part.Holds (room + 7))
    have hportable : ∀ f ∈ part.fields, f.2.Portable (room + 9) := CommandPart.portable_fields hpart
    refine returns_shape (by decide : "single" ∈ _) rfl CommandPart.shape_notMem_fields
      CommandPart.isShort_fields hportable fun src hunion hword => ?_
    refine (congrArg (Option.bind · _) hunion).trans ?_
    simp only [Option.bind_some, hword, hread, Option.map_some]
  | composite parts note =>
    have hreturns : Returns (room + 9) parts :=
      .list fun part hpart => CommandPart.returns (hparts part hpart)
    refine returns_shape (by decide : "composite" ∈ _) rfl shape_notMem_bundle isShort_bundle
      (portable_bundle hreturns) fun src hunion hword => ?_
    refine (congrArg (Option.bind · _) hunion).trans ?_
    simp only [Option.bind_some, hword]
    exact whole_bundle hreturns Source.holds_part composite

end CommandMessage

end Protocol

end DeltaForest
