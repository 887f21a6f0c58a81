import DeltaForest.Proofs.CommandFields
import DeltaForest.Proofs.EventFields
import DeltaForest.Proofs.Legible
import DeltaForest.Protocol.Message

/-!
# Messages come back

Every message that names no position beyond 64 bits can be written as JSON and is read back as it
was: `Message.ofJson?_toJson`. Two steps lead there. The body of a message comes back as a tree,
whatever its category and kind, and from JSON as well as from CBOR (`Message.ofBody_body`); and the
tree in its envelope is read as it is printed, for which it is flat enough.
-/

namespace DeltaForest

open Fields Fields.Reader

variable {room : Nat} {src : Source}

namespace Protocol

/-! ## Queries -/

namespace Request

theorem kind_mem_kinds (r : Request) : r.kind ∈ kinds := by
  cases r <;> exact of_decide_eq_true rfl

theorem fit_fields (r : Request) : Fit (names r.fields) := by
  cases r <;> exact of_decide_eq_true rfl

theorem takes (r : Request) : (reader r.kind).Takes room r r.fields := by
  cases r with
  | signOn version client repository =>
    exact .cons (.string version) (.cons (.string client) (.cons (.string repository) (.pure _)))
  | signOff | listPartitions => exact .pure _
  | reconnect participation lastReceived =>
    exact .cons (.participationId participation) (.cons (.uint64 lastReceived) (.pure _))
  | subscribeToChangingPartitions creation deletion partitions =>
    exact .cons (.bool creation) (.cons (.bool deletion) (.cons (.bool partitions) (.pure _)))
  | subscribeToPartitionContents partition | unsubscribeFromPartitionContents partition =>
    exact .cons (.nodeId partition) (.pure _)
  | getAvailableIds count => exact .cons (.uint32 count) (.pure _)

end Request

namespace Response

theorem kind_mem_kinds (r : Response) : r.kind ∈ kinds := by
  cases r <;> exact of_decide_eq_true rfl

theorem fit_fields (r : Response) : Fit (names r.fields) := by
  cases r <;> exact of_decide_eq_true rfl

theorem takes (r : Response) : (reader r.kind).Takes (room + 7) r r.fields := by
  cases r with
  | signOn participation => exact .cons (.participationId participation) (.pure _)
  | signOff | subscribeToChangingPartitions | unsubscribeFromPartitionContents => exact .pure _
  | reconnect lastSent => exact .cons (.uint64 lastSent) (.pure _)
  | subscribeToPartitionContents contents => exact .cons (.chunk contents) (.pure _)
  | getAvailableIds ids => exact .cons (.list fun id _ => .nodeId id) (.pure _)
  | listPartitions partitions => exact .cons (.chunk partitions) (.pure _)

end Response

/-- A query is read back by the kind of its request or response. -/
theorem flat?_query {β : Type} {id : QueryId} {kind : String} {kinds : List String}
    {reader : String → Reader β} {b : β} {fields : List (String × Data)} {note : Option Note}
    (hkind : kind ∈ kinds) (hfit : Fit (names fields))
    (htakes : (reader kind).Takes (room + 3) b fields) (hsrc : src.Holds (room + 4)) :
    (Data.object (flat "queryId" id kind fields note)).flat? src ["queryId", "message"] queryReader
      (kindOf? "messageKind" kinds reader) = some ((id, note), b) := by
  have hshort : ∀ name ∈ names (flat "queryId" id kind fields note), isShort name :=
    isShort_flat (by decide) hfit
  rw [Data.flat?, reached_object]
  refine (congrArg (Option.bind · _) (labels?_entries hshort)).trans ?_
  exact flatFields?_flat (by decide : "queryId" ∈ fronts) (.queryId id) hkind hfit htakes
    hsrc.inside

/-- A query comes back with its id. -/
theorem QueryRequest.returns (q : QueryRequest) : Returns (room + 4) q where
  portable := .object (portable_flat (.queryId q.id) q.request.takes.portable)
  read _ hsrc := congrArg (Option.map _)
    (flat?_query q.request.kind_mem_kinds q.request.fit_fields q.request.takes hsrc)

/-- An answer to a query comes back with the id of the query. -/
theorem QueryResponse.returns (q : QueryResponse) : Returns (room + 8) q where
  portable := .object (portable_flat (.queryId q.id) q.response.takes.portable)
  read _ hsrc := congrArg (Option.map _)
    (flat?_query q.response.kind_mem_kinds q.response.fit_fields q.response.takes hsrc)

/-! ## Answers to commands -/

/-- An acknowledgement comes back with the id of the command. -/
theorem Acknowledgement.returns (a : Acknowledgement) : Returns (room + 4) a where
  portable := .object (portable_noted (List.forall_mem_singleton.2 (.text a.command.text)))
  read src hsrc := by
    have hshort : ∀ name ∈ names [("commandId", toData a.command)], isShort name :=
      List.forall_mem_singleton.2 (isShort_of_mem_reserved "commandId" (by decide))
    have htakes : (Reader.required "commandId").Takes (room + 3) a.command
        [("commandId", toData a.command)] := .field (.commandId a.command)
    exact record?_object (isShort_noted hshort)
      (whole_noted htakes (by simp) (by simp) hsrc.inside Acknowledgement.mk)

/-- A refusal comes back with its reason. -/
theorem Refusal.returns (r : Refusal) : Returns (room + 4) r :=
  Takes.returns rfl (fun _ _ => rfl) (of_decide_eq_true rfl)
    (.cons (.string r.code) <| .cons (.list fun source _ => .commandSource source) <|
      .cons (.note r.note) <| .pure _)

/-! ## Messages -/

namespace Message

/-- The positions that a message names. -/
def indices : Message → List Nat
  | command c => c.indices
  | event e => e.event.indices
  | queryRequest _ | queryResponse _ | commandResponse _ | error _ => []

/-- What is in the envelope comes back, wherever it is read from. -/
theorem ofBody_body {m : Message} (h : ∀ i ∈ m.indices, i < UInt64.size) :
    m.body.Portable 11 ∧
      ∀ src : Source, src.Holds 11 → ofBody m.category src m.body = some m := by
  cases m with
  | command c =>
    have hc : Returns 11 c := CommandMessage.returns h
    exact ⟨hc.portable, fun src hsrc => congrArg (Option.map command) (hc.read src hsrc)⟩
  | event e =>
    have he : Returns 11 e := SequencedEvent.returns h
    exact ⟨he.portable, fun src hsrc => congrArg (Option.map event) (he.read src hsrc)⟩
  | queryRequest q =>
    have hq : Returns 11 q := q.returns
    exact ⟨hq.portable, fun src hsrc => congrArg (Option.map queryRequest) (hq.read src hsrc)⟩
  | queryResponse q =>
    have hq : Returns 11 q := q.returns
    exact ⟨hq.portable, fun src hsrc => congrArg (Option.map queryResponse) (hq.read src hsrc)⟩
  | commandResponse a =>
    have ha : Returns 11 a := a.returns
    exact ⟨ha.portable, fun src hsrc => congrArg (Option.map commandResponse) (ha.read src hsrc)⟩
  | error r =>
    have hr : Returns 11 r := r.returns
    exact ⟨hr.portable, fun src hsrc => congrArg (Option.map error) (hr.read src hsrc)⟩

/-- A message travels as a tree no deeper than twelve. -/
theorem portable_toTree {m : Message} (h : ∀ i ∈ m.indices, i < UInt64.size) :
    m.toTree.Portable 12 :=
  .object (List.forall_mem_cons.2 ⟨.text m.category.word,
    List.forall_mem_singleton.2 (ofBody_body h).1⟩)

/-- The category of a message is told by one of the words that are looked for. -/
theorem word_mem_words (m : Message) : m.category.word ∈ envelopeNames.words :=
  List.mem_map_of_mem (by cases m.category <;> decide)

/-- A message is what is in its envelope, wherever the body is read from. -/
theorem ofEnvelope?_body {m : Message} {src : Source} (h : ∀ i ∈ m.indices, i < UInt64.size)
    (hsrc : src.Holds 11) : ofEnvelope? ⟨m.category.word, src, m.body⟩ = some m := by
  have hcategory : Category.ofWord? m.category.word = some m.category := by
    cases m.category <;> rfl
  rw [ofEnvelope?, hcategory, Option.bind_some]
  exact (ofBody_body h).2 src hsrc

/-- A message is read from its tree. -/
theorem ofTree?_toTree {m : Message} (h : ∀ i ∈ m.indices, i < UInt64.size) :
    ofTree? m.toTree = some m := by
  have henvelope : m.toTree.envelope? envelopeNames = some ⟨m.category.word, .json, m.body⟩ :=
    envelope?_object m.word_mem_words (by decide)
  have hholds : Source.json.Holds 11 := trivial
  rw [ofTree?, henvelope, Option.bind_some, ofEnvelope?_body h hholds]

/-- Reading a message undoes writing it as JSON. -/
theorem ofJson?_toJson (m : Message) (h : ∀ i ∈ m.indices, i < UInt64.size) :
    ofJson? m.toJson = some m := by
  rw [ofJson?, toJson, Json.read_toJson (portable_toTree h) (by decide),
    Option.bind_some, ofTree?_toTree h]

end Message

end Protocol

namespace Examples

open Protocol

/-- A bundle that places a new node at the last position there is, under another one that gets a
    value of several lines, with a note that has quotes and a control character in it. -/
def newChildWithNote : Message :=
  .command (.composite
    [⟨⟨"c1"⟩, .addProperty ⟨"library"⟩ ⟨"books", "1", "motto"⟩ "read\nwrite", none⟩,
      ⟨⟨"c2"⟩, .addChild ⟨⟨"library"⟩, ⟨"books", "1", "shelves"⟩, 18446744073709551615⟩
        ⟨[⟨⟨"shelf"⟩, ⟨"books", "1", "Shelf"⟩, [⟨⟨"books", "1", "label"⟩, none⟩], [],
          [⟨⟨"books", "1", "favourite"⟩, [⟨none, some "Ubik"⟩]⟩], [], some ⟨"library"⟩⟩]⟩, none⟩]
    (some ⟨"info", "a \"shelf\" \x1b", [⟨"by", "librarian"⟩]⟩))

theorem newChildWithNote_comes_back :
    (∀ i ∈ newChildWithNote.indices, i < UInt64.size) ∧
      Message.ofJson? newChildWithNote.toJson = some newChildWithNote := by
  have hindices : ∀ i ∈ newChildWithNote.indices, i < UInt64.size := by decide
  exact ⟨hindices, Message.ofJson?_toJson newChildWithNote hindices⟩

end Examples

end DeltaForest
