import DeltaForest.Chunk
import DeltaForest.Proofs.Shapes
import DeltaForest.Protocol.PlaceFields

/-!
# What messages hold comes back

Ids, pointers, chunks and notes come back whatever they hold, and so do the fields for entries.
Places come back if their positions have 64 bits. A note stands at the end of what it belongs to and
may be left out, be it in a record or in a flat record (`Fields.flat`).
-/

namespace DeltaForest

open Fields Fields.Reader

variable {room : Nat} {src : Source}

/-! ## Positions -/

/-- The positions that a move names. -/
def Shift.indices {φ : Type} : Shift φ → List Nat
  | elsewhere target source => [target.index, source.index]
  | sameOwner _ _ newIndex _ oldIndex | sameList _ _ newIndex oldIndex => [newIndex, oldIndex]

/-- The positions that a move names. -/
def AnnotationShift.indices : AnnotationShift → List Nat
  | elsewhere target source => [target.index, source.index]
  | sameOwner _ newIndex oldIndex => [newIndex, oldIndex]

/-! ## Ids and pointers -/

namespace Returns

theorem nodeId (id : NodeId) : Returns room id where
  portable := .text id.text
  read src hsrc := congrArg (Option.map NodeId.mk) ((string id.text).read src hsrc)

theorem participationId (id : ParticipationId) : Returns room id where
  portable := .text id.text
  read src hsrc := congrArg (Option.map ParticipationId.mk) ((string id.text).read src hsrc)

theorem commandId (id : CommandId) : Returns room id where
  portable := .text id.text
  read src hsrc := congrArg (Option.map CommandId.mk) ((string id.text).read src hsrc)

theorem queryId (id : QueryId) : Returns room id where
  portable := .text id.text
  read src hsrc := congrArg (Option.map QueryId.mk) ((string id.text).read src hsrc)

/-- No id is told as nothing at all, which an id is not. -/
theorem nodeId? (id : Option NodeId) : Returns room id := by
  cases id with
  | none => exact absent
  | some id => exact (nodeId id).present nofun

theorem string? (s : Option String) : Returns room s := by
  cases s with
  | none => exact absent
  | some s => exact (string s).present nofun

/-- A source is told by its two fields. -/
theorem commandSource (source : CommandSource) : Returns (room + 1) source :=
  Takes.returns rfl (fun _ _ => rfl) (of_decide_eq_true rfl)
    (.cons (participationId source.participation) (.cons (commandId source.command) (.pure _)))

/-- A pointer is told by its three fields. -/
theorem pointer (p : Pointer) : Returns (room + 1) p :=
  Takes.returns rfl (fun _ _ => rfl) (of_decide_eq_true rfl)
    (.cons (string p.language) (.cons (string p.version) (.cons (string p.key) (.pure _))))

/-! ## Chunks -/

/-- Both halves of an entry are fields that may have nothing in them. -/
theorem entry (e : Entry) : Returns (room + 1) e :=
  Takes.returns rfl (fun _ _ => rfl) (of_decide_eq_true rfl)
    (.cons (string? e.resolveInfo) (.cons (nodeId? e.target) (.pure _)))

theorem property (p : Chunk.Property) : Returns (room + 2) p :=
  Takes.returns rfl (fun _ _ => rfl) (of_decide_eq_true rfl)
    (.cons (pointer p.pointer) (.cons (string? p.value) (.pure _)))

theorem containment (c : Chunk.Containment) : Returns (room + 2) c :=
  Takes.returns rfl (fun _ _ => rfl) (of_decide_eq_true rfl)
    (.cons (pointer c.pointer) (.cons (list fun id _ => nodeId id) (.pure _)))

theorem reference (r : Chunk.Reference) : Returns (room + 3) r :=
  Takes.returns rfl (fun _ _ => rfl) (of_decide_eq_true rfl)
    (.cons (pointer r.pointer) (.cons (list fun e _ => entry e) (.pure _)))

/-- An item holds lists of properties, containments and references, one level deeper each. -/
theorem item (n : Chunk.Item) : Returns (room + 5) n :=
  Takes.returns rfl (fun _ _ => rfl) (of_decide_eq_true rfl)
    (.cons (nodeId n.id) <| .cons (pointer n.classifier) <|
      .cons (list fun p _ => property p) <| .cons (list fun c _ => containment c) <|
      .cons (list fun r _ => reference r) <| .cons (list fun id _ => nodeId id) <|
      .cons (nodeId? n.parent) <| .pure _)

/-- A chunk is a list of items. -/
theorem chunk (c : Chunk) : Returns (room + 7) c :=
  Takes.returns rfl (fun _ _ => rfl) (of_decide_eq_true rfl)
    (.cons (list fun n _ => item n) (.pure _))

/-! ## Notes -/

theorem datum (d : Protocol.Note.Datum) : Returns (room + 1) d :=
  Takes.returns rfl (fun _ _ => rfl) (of_decide_eq_true rfl)
    (.cons (string d.key) (.cons (string d.value) (.pure _)))

/-- A note holds data of its own, in which texts are told by a kind and a text. -/
theorem note (n : Protocol.Note) : Returns (room + 3) n :=
  Takes.returns rfl (fun _ _ => rfl) (of_decide_eq_true rfl)
    (.cons (string n.kind) (.cons (string n.text) (.cons (list fun d _ => datum d) (.pure _))))

end Returns

namespace Protocol

variable {α β : Type} {r : Reader α} {a : α} {fields : List (String × Data)} {note : Option Note}

/-- A note behind the fields of a record travels if it is there. -/
theorem portable_noted (h : ∀ f ∈ fields, f.2.Portable (room + 3)) :
    ∀ f ∈ fields ++ noteField note, f.2.Portable (room + 3) := by
  refine List.forall_mem_append.2 ⟨h, ?_⟩
  cases note with
  | none => nofun
  | some n => exact List.forall_mem_singleton.2 (Returns.note n).portable

/-- A note adds one name to those of the fields. -/
theorem mem_names_noted {name : String} (h : name ∈ names (fields ++ noteField note)) :
    name ∈ names fields ∨ name = "message" := by
  rw [names, List.map_append, List.mem_append] at h
  refine h.imp_right fun h => ?_
  cases note with
  | none => cases h
  | some n => exact List.mem_singleton.1 h

/-- The name of a note is short. -/
theorem isShort_noted (h : ∀ name ∈ names fields, isShort name) :
    ∀ name ∈ names (fields ++ noteField note), isShort name := by
  intro name hname
  rcases mem_names_noted hname with hname | rfl
  · exact h _ hname
  · decide

/-- Fields are read as a whole with or without a note behind them. -/
theorem whole_noted (h : r.Takes (room + 3) a fields) (hnames : (names fields).Nodup)
    (hname : "message" ∉ names fields) (hsrc : src.Holds (room + 3)) (f : α → Option Note → β) :
    Reader.whole (r >>= fun a => noteReader >>= fun note => pure (f a note)) src
      (labelled (labels (fields ++ noteField note))) = some (f a note) := by
  -- A note is a field behind the others or no field at all.
  cases note with
  | none =>
    rw [noteField, List.append_nil]
    exact h.whole_missing hnames hname rfl hsrc
  | some n =>
    have hnote : Returns (room + 3) (some n) := (Returns.note n).present nofun
    have htakes : (r >>= fun a => noteReader >>= fun note => pure (f a note)).Takes (room + 3)
        (f a (some n)) (fields ++ [("message", toData n)]) := h.bind (.cons hnote (.pure _))
    refine htakes.whole ?_ hsrc
    rw [names, List.map_append]
    refine List.nodup_append.2 ⟨hnames, by simp, fun name hmem other hother heq => ?_⟩
    have hmessage : name = "message" := heq.trans (List.mem_singleton.1 hother)
    exact hname (hmessage ▸ hmem)

/-! ## Places and entries -/

/-- A place is read from three fields, whatever they are called. -/
theorem PlaceNames.takes (names : PlaceNames) {place : Place Pointer}
    (h : place.index < UInt64.size) :
    names.reader.Takes (room + 1) place (names.fields place) :=
  .cons (.nodeId place.owner) (.cons (.pointer place.feature) (.cons (.nat h) (.pure _)))

/-- An entry is read from two fields, whatever they are called. -/
theorem EntryNames.takes (names : EntryNames) (e : Entry) :
    names.reader.Takes room e (names.fields e) :=
  .cons (.nodeId? e.target) (.cons (.string? e.resolveInfo) (.pure _))

/-- The reader for the move of an entry that goes so far. -/
def entryShiftReader : Shift Pointer → Reader (Shift Pointer)
  | .elsewhere .. => entryElsewhere
  | .sameOwner .. => entrySameOwner
  | .sameList .. => entrySameList

/-- How far an entry is moved decides on the reader for the move and on the fields. -/
theorem takes_entryShift {shift : Shift Pointer} (h : ∀ i ∈ shift.indices, i < UInt64.size) :
    (entryShiftReader shift).Takes (room + 1) shift (entryShiftFields shift) := by
  cases shift with
  | elsewhere target source =>
    have hnew : target.index < UInt64.size := h _ (.head _)
    have hold : source.index < UInt64.size := h _ (.tail _ (.head _))
    exact (PlaceNames.newEntry.takes hnew).bind ((PlaceNames.oldEntry.takes hold).map _)
  | sameOwner owner newFeature newIndex oldFeature oldIndex =>
    have hnew : newIndex < UInt64.size := h _ (.head _)
    have hold : oldIndex < UInt64.size := h _ (.tail _ (.head _))
    exact .cons (.nodeId owner) <| .cons (.pointer newFeature) <| .cons (.nat hnew) <|
      .cons (.pointer oldFeature) <| .cons (.nat hold) <| .pure _
  | sameList owner feature newIndex oldIndex =>
    have hnew : newIndex < UInt64.size := h _ (.head _)
    have hold : oldIndex < UInt64.size := h _ (.tail _ (.head _))
    exact .cons (.nodeId owner) <| .cons (.pointer feature) <| .cons (.nat hnew) <|
      .cons (.nat hold) <| .pure _

/-! ## Flat records -/

/-- What the field in front of a flat record may be called. -/
def fronts : List String := ["commandId", "originCommands", "queryId"]

/-- The names of fields with the same meaning in all messages. -/
def reserved : List String := ["shape", "messageKind", "message"] ++ fronts

/-- Names of fields that can stand side by side with each other and with those of any message. -/
def Fit (names : List String) : Prop := Distinct names ∧ ∀ name ∈ names, name ∉ reserved

instance (names : List String) : Decidable (Fit names) :=
  inferInstanceAs (Decidable (Distinct names ∧ ∀ name ∈ names, name ∉ reserved))

/-- The fields of a flat record: one in front, the kind with its fields, and the note. -/
def flat [Wire α] (front : String) (a : α) (kind : String) (fields : List (String × Data))
    (note : Option Note) : List (String × Data) :=
  (front, toData a) :: ("messageKind", .text kind) :: fields ++ noteField note

theorem isShort_of_mem_reserved : ∀ name ∈ reserved, isShort name := by decide

/-- What stands in front of the fields of a message is not mistaken for anything else. -/
theorem front_apart : ∀ front ∈ fronts,
    front ∈ reserved ∧ front ≠ "shape" ∧ front ≠ "messageKind" ∧ front ≠ "message" := by decide

section Flat

variable [Wire α] {front kind : String} {b : β}

/-- All names in a flat record are short. -/
theorem isShort_flat (hfront : front ∈ fronts) (hfit : Fit (names fields)) :
    ∀ name ∈ names (flat front a kind fields note), isShort name := by
  refine isShort_noted (List.forall_mem_cons.2 ⟨?_, List.forall_mem_cons.2 ⟨?_, hfit.1.2⟩⟩)
  · exact isShort_of_mem_reserved _ (front_apart _ hfront).1
  · exact isShort_of_mem_reserved "messageKind" (by decide)

/-- A flat record travels if what is in it does. -/
theorem portable_flat (ha : Returns (room + 3) a)
    (hfields : ∀ f ∈ fields, f.2.Portable (room + 3)) :
    ∀ f ∈ flat front a kind fields note, f.2.Portable (room + 3) := by
  refine portable_noted (List.forall_mem_cons.2 ⟨ha.portable, ?_⟩)
  exact List.forall_mem_cons.2 ⟨.text kind, hfields⟩

/-- The name for the shape of a message is left free by a flat record. -/
theorem shape_notMem_flat (hfront : front ∈ fronts) (hfit : Fit (names fields)) :
    "shape" ∉ names (flat front a kind fields note) := by
  intro h
  rcases mem_names_noted h with h | h
  · rcases List.mem_cons.1 h with h | h
    · exact (front_apart _ hfront).2.1 h.symm
    · rcases List.mem_cons.1 h with h | h
      · exact (by decide : "shape" ≠ "messageKind") h
      · exact hfit.2 _ h (by decide)
  · exact (by decide : "shape" ≠ "message") h

/-- A flat record is read back as what stands in front, the note, and what its kind makes of the
    other fields. -/
theorem flatFields?_flat {kinds : List String} {reader : String → Reader β}
    (hfront : front ∈ fronts) (ha : Returns (room + 3) a) (hkind : kind ∈ kinds)
    (hfit : Fit (names fields)) (htakes : (reader kind).Takes (room + 3) b fields)
    (hsrc : src.Holds (room + 3)) :
    Data.flatFields? src (labels (flat front a kind fields note)) [front, "message"]
      (Reader.required front >>= fun a => noteReader >>= fun note => pure (a, note))
      (kindOf? "messageKind" kinds reader) = some ((a, note), b) := by
  obtain ⟨hreserved, _, hnotKind, hnotNote⟩ := front_apart _ hfront
  have htag : "messageKind" ∉ names fields := fun h => hfit.2 _ h (by decide)
  have hflat : flat front a kind fields note =
      [(front, toData a)] ++ (("messageKind", .text kind) :: fields) ++ noteField note := rfl
  rw [hflat]
  -- Three groups of fields stand flat side by side and are told apart by their names.
  refine flatFields?_labels ?_ ?_ ?_ hsrc ?_ ?_
  · intro name hname
    rcases mem_names_noted hname with h | h
    · exact List.mem_append_left _ h
    · exact List.mem_cons_of_mem _ (List.mem_singleton.2 h)
  · refine List.forall_mem_cons.2 ⟨?_, fun name hname h => ?_⟩
    · simpa using hnotKind.symm
    · rcases List.mem_cons.1 h with rfl | h
      · exact hfit.2 _ hname hreserved
      · exact hfit.2 _ hname (List.mem_singleton.1 h ▸ by decide)
  · exact List.forall_mem_cons.2 ⟨.text kind, htakes.portable⟩
  · exact whole_noted (.field ha) (by simp) (by simpa using hnotNote.symm) hsrc Prod.mk
  · exact kindOf?_labels hkind htag (htakes.whole hfit.1.1 Source.holds_part)

end Flat

/-! ## Single or bundled -/

/-- A message comes back if it does once the word for its shape is read and the other fields are
    left. -/
theorem returns_shape [Wire α] {word : String} (hword : word ∈ ["single", "composite"])
    (hdata : toData a = .object (("shape", toData word) :: fields))
    (hshape : "shape" ∉ names fields) (hshort : ∀ name ∈ names fields, isShort name)
    (hportable : ∀ f ∈ fields, f.2.Portable room)
    (hread : ∀ src : Source,
      (toData a).union? src "shape" = some (.text word, labelled (labels fields)) →
      (Label.ofData src (.text word)).bind (Label.among ["single", "composite"]) = some word →
      ofData src (toData a) = some a) : Returns (room + 1) a where
  portable := hdata ▸ .object (List.forall_mem_cons.2 ⟨.text word, hportable⟩)
  read src hsrc := by
    have hwords : ∀ word ∈ ["single", "composite"], isShort word := by decide
    refine hread src (hdata ▸ union?_object hshape hshort hportable hsrc) ?_
    rw [ofData_name (hwords _ hword), Option.bind_some, Label.among, if_pos hword]

/-- The fields of a bundle: its parts, and the note. -/
def bundle [Wire α] (parts : List α) (note : Option Note) : List (String × Data) :=
  [("parts", toData parts)] ++ noteField note

section Bundle

variable [Wire α] {parts : List α}

theorem isShort_bundle : ∀ name ∈ names (bundle parts note), isShort name := by
  have hparts : isShort "parts" := by decide
  exact isShort_noted (List.forall_mem_singleton.2 hparts)

/-- The name for the shape of a message is left free by a bundle. -/
theorem shape_notMem_bundle : "shape" ∉ names (bundle parts note) := by
  intro h
  rcases mem_names_noted h with h | h
  · exact (by decide : "shape" ∉ ["parts"]) h
  · exact (by decide : "shape" ≠ "message") h

/-- A bundle travels if its parts do. -/
theorem portable_bundle (h : Returns (room + 3) parts) :
    ∀ f ∈ bundle parts note, f.2.Portable (room + 3) :=
  portable_noted (List.forall_mem_singleton.2 h.portable)

/-- A bundle is read to its end as its parts and its note. -/
theorem whole_bundle (h : Returns (room + 3) parts) (hsrc : src.Holds (room + 3))
    (f : List α → Option Note → β) :
    Reader.whole (Reader.required "parts" >>= fun parts =>
      noteReader >>= fun note => pure (f parts note)) src
      (labelled (labels (bundle parts note))) = some (f parts note) :=
  whole_noted (.field h) (by simp) (by simp) hsrc f

end Bundle

end Protocol

end DeltaForest
