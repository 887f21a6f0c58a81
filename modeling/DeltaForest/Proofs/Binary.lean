import DeltaForest.Proofs.Envelopes
import DeltaForest.Proofs.RoundTrip

/-!
# Messages come back from bytes

What is written for a message in CBOR is as it should be: heads as short as they can be, names that
are texts, lists with their lengths in front, and maps too, but for those among whose fields the
kind of a message stands, which end with a stop code. And reading undoes it
(`Message.ofCbor?_toCbor`). A list of messages goes round in the same way
(`Message.listOfCbor?_listToCbor`). For that no position and no length goes beyond 64 bits.
-/

namespace DeltaForest.Protocol

open Data

theorem legible_envelopeNames : envelopeNames.Legible where
  kind := by decide
  body := by decide
  ne := by decide
  words := by decide

namespace Message

variable {m : Message} {messages : List Message} {bytes rest : List UInt8}

/-- A message is read from whatever spells its tree. -/
theorem ofCbor?_of_spells (h : ∀ i ∈ m.indices, i < UInt64.size)
    (hspells : m.toTree.Spells isOpenMap bytes) : ofCbor? (bytes ++ rest) = some m := by
  have henvelope : Cbor.envelope? envelopeNames (.cbor 0) (bytes ++ rest) =
      some (⟨m.category.word, .cbor 1, m.body⟩, rest) :=
    Cbor.envelope?_of_spells legible_envelopeNames m.word_mem_words hspells
  have hholds : (Source.cbor 1).Holds 11 := by
    show 1 + 11 ≤ Cbor.depthLimit
    decide
  rw [ofCbor?, henvelope, Option.bind_some]
  exact ofEnvelope?_body h hholds

/-- What is written for a message spells its tree, and reading it gives the message again. -/
theorem ofCbor?_toCbor (m : Message) (h : ∀ i ∈ m.indices, i < UInt64.size)
    (hsize : m.toCbor.length < UInt64.size) :
    m.toTree.Spells isOpenMap m.toCbor ∧ ofCbor? m.toCbor = some m := by
  have hspells : m.toTree.Spells isOpenMap m.toCbor := (portable_toTree h).spells hsize
  refine ⟨hspells, ?_⟩
  rw [← List.append_nil m.toCbor]
  exact ofCbor?_of_spells h hspells

/-- Messages are read from whatever spells the list of their trees. -/
theorem listOfCbor?_of_spells (h : ∀ m ∈ messages, ∀ i ∈ m.indices, i < UInt64.size)
    (hspells : (Data.list (messages.map toTree)).Spells isOpenMap bytes) :
    listOfCbor? (bytes ++ rest) = some messages := by
  have htrees : messages.map toTree =
      (messages.map fun m => (m.category.word, m.body)).map fun e =>
        envelopeNames.tree e.1 e.2 := by
    rw [List.map_map]
    rfl
  rw [htrees] at hspells
  rw [listOfCbor?, Cbor.envelopes?_of_spells legible_envelopeNames
    (List.forall_mem_map.2 fun m _ => m.word_mem_words) hspells, Option.bind_some, List.map_map]
  have hholds : (Source.cbor 2).Holds 11 := by
    show 2 + 11 ≤ Cbor.depthLimit
    decide
  clear hspells htrees
  induction messages with
  | nil => rfl
  | cons m messages ih =>
    obtain ⟨hm, hmessages⟩ := List.forall_mem_cons.1 h
    rw [List.map_cons, List.mapM_cons, ih hmessages]
    exact congrArg (Option.bind · _) (ofEnvelope?_body hm hholds)

/-- Reading messages undoes writing them as one list in CBOR. -/
theorem listOfCbor?_listToCbor (h : ∀ m ∈ messages, ∀ i ∈ m.indices, i < UInt64.size)
    (hsize : (listToCbor messages).length < UInt64.size) :
    listOfCbor? (listToCbor messages) = some messages := by
  have hportable : (Data.list (messages.map toTree)).Portable 13 :=
    .list (List.forall_mem_map.2 fun m hm => portable_toTree (h m hm))
  rw [← List.append_nil (listToCbor messages)]
  exact listOfCbor?_of_spells h (hportable.spells hsize)

end Message

end DeltaForest.Protocol

namespace DeltaForest.Examples

open Protocol

theorem newChildWithNote_in_bytes : (∀ i ∈ newChildWithNote.indices, i < UInt64.size) ∧
    newChildWithNote.toCbor.length < UInt64.size ∧
      newChildWithNote.toTree.Spells isOpenMap newChildWithNote.toCbor ∧
        Message.ofCbor? newChildWithNote.toCbor = some newChildWithNote := by
  have hindices : ∀ i ∈ newChildWithNote.indices, i < UInt64.size := by decide
  have hsize : newChildWithNote.toCbor.length < UInt64.size := by decide +kernel
  exact ⟨hindices, hsize, Message.ofCbor?_toCbor newChildWithNote hindices hsize⟩

end DeltaForest.Examples
