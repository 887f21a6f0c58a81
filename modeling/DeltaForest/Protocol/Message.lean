import DeltaForest.Cbor.Writer
import DeltaForest.Json.Printer
import DeltaForest.Json.Reader
import DeltaForest.Protocol.Command.Fields
import DeltaForest.Protocol.Event.Fields
import DeltaForest.Protocol.Query
import DeltaForest.Fault
import DeltaForest.Wire.Envelope

/-!
# Messages

Everything that clients and repositories send to each other, in an envelope that says of which
category it is. A message can be written as JSON text and as CBOR bytes.
-/

namespace DeltaForest.Protocol

/-- What a message is for. -/
inductive Category
  | command
  | event
  | queryRequest
  | queryResponse
  | commandResponse
  | error
  deriving DecidableEq, Repr, Inhabited

namespace Category

/-- The word for a category. -/
def word : Category → String
  | command => "command"
  | event => "event"
  | queryRequest => "queryRequest"
  | queryResponse => "queryResponse"
  | commandResponse => "commandResponse"
  | error => "error"

/-- All categories. -/
def all : List Category :=
  [command, event, queryRequest, queryResponse, commandResponse, error]

/-- The category that a word stands for. -/
def ofWord? (s : String) : Option Category := all.find? (·.word = s)

/-- The complaint about a word that stands for no category. -/
def unknownText (s : String) : String := "unknown message category: " ++ s

end Category

/-- The news that a command was accepted. -/
structure Acknowledgement where
  command : CommandId
  note : Option Note
  deriving DecidableEq, Repr, Inhabited

/-- The news that commands were refused. -/
structure Refusal where
  code : String
  origins : List CommandSource
  note : Note
  deriving DecidableEq, Repr, Inhabited

/-- The news that commands were refused for a cause. -/
def Refusal.ofFault (fault : Fault) (origins : List CommandSource) : Refusal where
  code := fault.code
  origins := origins
  note :=
    { kind := fault.code
      text := fault.message
      data := origins.map fun source => ⟨"command", source.text⟩ }

/-- A message. -/
inductive Message
  | command (command : CommandMessage)
  | event (event : SequencedEvent)
  | queryRequest (request : QueryRequest)
  | queryResponse (response : QueryResponse)
  | commandResponse (response : Acknowledgement)
  | error (refusal : Refusal)
  deriving DecidableEq, Repr, Inhabited

namespace Message

/-- What a message is for. -/
def category : Message → Category
  | command _ => .command
  | event _ => .event
  | queryRequest _ => .queryRequest
  | queryResponse _ => .queryResponse
  | commandResponse _ => .commandResponse
  | error _ => .error

/-- The name of the kind of a message. -/
def kind : Message → String
  | command c => c.kind
  | event e => e.event.kind
  | queryRequest q => q.request.kind
  | queryResponse q => q.response.kind
  | commandResponse _ => "CommandResponse"
  | error _ => "Error"

end Message

/-! ## In data trees -/

instance : Wire Acknowledgement where
  toData a := .object (("commandId", toData a.command) :: noteField a.note)
  ofData src d := d.record? src do
    let command ← .required "commandId"
    let note ← noteReader
    return ⟨command, note⟩

instance : Wire Refusal where
  toData r := .object
    [("errorCode", toData r.code), ("originCommands", toData r.origins),
      ("message", toData r.note)]
  ofData src d := d.record? src do
    let code ← .required "errorCode"
    let origins ← .required "originCommands"
    let note ← .required "message"
    return ⟨code, origins, note⟩

namespace Message

/-- The tree for what is in the envelope. -/
def body : Message → Data
  | command c => toData c
  | event e => toData e
  | queryRequest q => toData q
  | queryResponse q => toData q
  | commandResponse a => toData a
  | error r => toData r

/-- Reads what is in the envelope. -/
def ofBody (category : Category) (src : Source) (d : Data) : Option Message :=
  match category with
  | .command => (ofData src d).map command
  | .event => (ofData src d).map event
  | .queryRequest => (ofData src d).map queryRequest
  | .queryResponse => (ofData src d).map queryResponse
  | .commandResponse => (ofData src d).map commandResponse
  | .error => (ofData src d).map error

end Message

/-- The envelope of messages. -/
def envelopeNames : EnvelopeNames := ⟨"type", "body", Category.all.map Category.word⟩

namespace Message

/-- The tree for a message. -/
def toTree (m : Message) : Data :=
  .object [(envelopeNames.kind, toData m.category.word), (envelopeNames.body, m.body)]

/-- The message in an envelope. -/
def ofEnvelope? (e : Envelope) : Option Message :=
  (Category.ofWord? e.word).bind fun category => ofBody category e.source e.body

end Message

/-! ## As text and as bytes -/

/-- Whether a map is written without saying in front how long it is: those are, among whose fields
    the kind of a message stands. -/
def isOpenMap (entries : List (Data × Data)) : Bool :=
  entries.any fun (k, _) => k.isText "messageKind"

namespace Message

/-- The message that a tree of JSON stands for. -/
def ofTree? (d : Data) : Option Message :=
  (d.envelope? envelopeNames).bind ofEnvelope?

/-- A message as JSON. -/
def toJson (m : Message) : String := m.toTree.toJson

/-- The message that a JSON text holds. -/
def ofJson? (s : String) : Option Message := (Json.read s).bind ofTree?

/-- A message as CBOR. -/
def toCbor (m : Message) : List UInt8 := m.toTree.toCbor isOpenMap

/-- The message that CBOR bytes begin with. -/
def ofCbor? (bytes : List UInt8) : Option Message :=
  (Cbor.envelope? envelopeNames (.cbor 0) bytes).bind fun (e, _) => ofEnvelope? e

/-- Messages as one list in CBOR. -/
def listToCbor (messages : List Message) : List UInt8 :=
  (Data.list (messages.map toTree)).toCbor isOpenMap

/-- The messages of the list that CBOR bytes begin with. -/
def listOfCbor? (bytes : List UInt8) : Option (List Message) :=
  (Cbor.envelopes? envelopeNames bytes).bind fun es => es.mapM ofEnvelope?

end Message

end DeltaForest.Protocol
