import DeltaForest.Chunk
import DeltaForest.Protocol.Note

/-!
# Queries

A client opens and closes its participation, chooses what it is told about, reserves node ids and
asks for the partitions by queries. Every kind of request is answered by one kind of response, and
a response carries the id of its request.
-/

namespace DeltaForest.Protocol

/-- What a client asks for. -/
inductive Request
  | signOn (version client repository : String)
  | signOff
  | reconnect (participation : ParticipationId) (lastReceived : UInt64)
  | subscribeToChangingPartitions (creation deletion partitions : Bool)
  | subscribeToPartitionContents (partition : NodeId)
  | unsubscribeFromPartitionContents (partition : NodeId)
  | getAvailableIds (count : UInt32)
  | listPartitions
  deriving DecidableEq, Repr, Inhabited

/-- What a repository answers. -/
inductive Response
  | signOn (participation : ParticipationId)
  | signOff
  | reconnect (lastSent : UInt64)
  | subscribeToChangingPartitions
  | subscribeToPartitionContents (contents : Chunk)
  | unsubscribeFromPartitionContents
  | getAvailableIds (ids : List NodeId)
  | listPartitions (partitions : Chunk)
  deriving DecidableEq, Repr, Inhabited

/-- The version of the protocol that is spoken. -/
def protocolVersion : String := "2025.1"

namespace Request

/-- The name of the kind of a request. -/
def kind : Request → String
  | signOn .. => "SignOn"
  | signOff => "SignOff"
  | reconnect .. => "Reconnect"
  | subscribeToChangingPartitions .. => "SubscribeToChangingPartitions"
  | subscribeToPartitionContents _ => "SubscribeToPartitionContents"
  | unsubscribeFromPartitionContents _ => "UnsubscribeFromPartitionContents"
  | getAvailableIds _ => "GetAvailableIds"
  | listPartitions => "ListPartitions"

/-- The name of the kind of the responses to a request. -/
def responseKind (r : Request) : String := r.kind ++ "Response"

/-- The names of all kinds. -/
def kinds : List String :=
  ["SignOn", "SignOff", "Reconnect", "SubscribeToChangingPartitions",
    "SubscribeToPartitionContents", "UnsubscribeFromPartitionContents", "GetAvailableIds",
    "ListPartitions"]

/-- The fields of a request. -/
def fields : Request → List (String × Data)
  | signOn version client repository =>
    [("deltaProtocolVersion", toData version), ("clientId", toData client),
      ("repositoryId", toData repository)]
  | signOff => []
  | reconnect participation lastReceived =>
    [("participationId", toData participation),
      ("lastReceivedSequenceNumber", toData lastReceived)]
  | subscribeToChangingPartitions creation deletion partitions =>
    [("creation", toData creation), ("deletion", toData deletion),
      ("partitions", toData partitions)]
  | subscribeToPartitionContents partition => [("partition", toData partition)]
  | unsubscribeFromPartitionContents partition => [("partition", toData partition)]
  | getAvailableIds count => [("count", toData count)]
  | listPartitions => []

/-- Reads the fields of a request of a kind. -/
def reader (kind : String) : Fields.Reader Request :=
  match kind with
  | "SignOn" => do
    let version ← .required "deltaProtocolVersion"
    let client ← .required "clientId"
    let repository ← .required "repositoryId"
    return signOn version client repository
  | "SignOff" => return signOff
  | "Reconnect" => do
    let participation ← .required "participationId"
    let lastReceived ← .required "lastReceivedSequenceNumber"
    return reconnect participation lastReceived
  | "SubscribeToChangingPartitions" => do
    let creation ← .required "creation"
    let deletion ← .required "deletion"
    let partitions ← .required "partitions"
    return subscribeToChangingPartitions creation deletion partitions
  | "SubscribeToPartitionContents" =>
    return subscribeToPartitionContents (← .required "partition")
  | "UnsubscribeFromPartitionContents" =>
    return unsubscribeFromPartitionContents (← .required "partition")
  | "GetAvailableIds" => return getAvailableIds (← .required "count")
  | "ListPartitions" => return listPartitions
  | _ => .refuse

/-- The fields of a request, with the name of its kind in front. -/
def tagged (r : Request) : List (String × Data) := ("messageKind", toData r.kind) :: r.fields

/-- Reads a request from fields among which the name of its kind stands. -/
def ofFields? (entries : List (Label × Data)) : Option Request :=
  kindOf? "messageKind" kinds reader entries

end Request

namespace Response

/-- The name of the kind of a response. -/
def kind : Response → String
  | signOn _ => "SignOnResponse"
  | signOff => "SignOffResponse"
  | reconnect _ => "ReconnectResponse"
  | subscribeToChangingPartitions => "SubscribeToChangingPartitionsResponse"
  | subscribeToPartitionContents _ => "SubscribeToPartitionContentsResponse"
  | unsubscribeFromPartitionContents => "UnsubscribeFromPartitionContentsResponse"
  | getAvailableIds _ => "GetAvailableIdsResponse"
  | listPartitions _ => "ListPartitionsResponse"

/-- The names of all kinds. -/
def kinds : List String := Request.kinds.map (· ++ "Response")

/-- The fields of a response. -/
def fields : Response → List (String × Data)
  | signOn participation => [("participationId", toData participation)]
  | signOff => []
  | reconnect lastSent => [("lastSentSequenceNumber", toData lastSent)]
  | subscribeToChangingPartitions => []
  | subscribeToPartitionContents contents => [("contents", toData contents)]
  | unsubscribeFromPartitionContents => []
  | getAvailableIds ids => [("ids", toData ids)]
  | listPartitions partitions => [("partitions", toData partitions)]

/-- Reads the fields of a response of a kind. -/
def reader (kind : String) : Fields.Reader Response :=
  match kind with
  | "SignOnResponse" => return signOn (← .required "participationId")
  | "SignOffResponse" => return signOff
  | "ReconnectResponse" => return reconnect (← .required "lastSentSequenceNumber")
  | "SubscribeToChangingPartitionsResponse" => return subscribeToChangingPartitions
  | "SubscribeToPartitionContentsResponse" =>
    return subscribeToPartitionContents (← .required "contents")
  | "UnsubscribeFromPartitionContentsResponse" => return unsubscribeFromPartitionContents
  | "GetAvailableIdsResponse" => return getAvailableIds (← .required "ids")
  | "ListPartitionsResponse" => return listPartitions (← .required "partitions")
  | _ => .refuse

/-- The fields of a response, with the name of its kind in front. -/
def tagged (r : Response) : List (String × Data) := ("messageKind", toData r.kind) :: r.fields

/-- Reads a response from fields among which the name of its kind stands. -/
def ofFields? (entries : List (Label × Data)) : Option Response :=
  kindOf? "messageKind" kinds reader entries

end Response

/-- A request with its id. -/
structure QueryRequest where
  id : QueryId
  request : Request
  note : Option Note
  deriving DecidableEq, Repr, Inhabited

/-- A response with the id of its request. -/
structure QueryResponse where
  id : QueryId
  response : Response
  note : Option Note
  deriving DecidableEq, Repr, Inhabited

namespace QueryRequest

/-- The request to open a participation, in the version of the protocol that is spoken. -/
def signOn (id : QueryId) (client repository : String) : QueryRequest :=
  ⟨id, .signOn protocolVersion client repository, none⟩

/-- Whether a response answers a request. -/
def isAnsweredBy (q : QueryRequest) (r : QueryResponse) : Bool :=
  q.id = r.id && q.request.responseKind = r.response.kind

end QueryRequest

/-- Reads the id and the note of a query. -/
def queryReader : Fields.Reader (QueryId × Option Note) := do
  let id ← .required "queryId"
  let note ← noteReader
  return (id, note)

instance : Wire QueryRequest where
  toData q := .object (("queryId", toData q.id) :: q.request.tagged ++ noteField q.note)
  ofData src d :=
    (d.flat? src ["queryId", "message"] queryReader Request.ofFields?).map
      fun ((id, note), request) => ⟨id, request, note⟩

instance : Wire QueryResponse where
  toData q := .object (("queryId", toData q.id) :: q.response.tagged ++ noteField q.note)
  ofData src d :=
    (d.flat? src ["queryId", "message"] queryReader Response.ofFields?).map
      fun ((id, note), response) => ⟨id, response, note⟩

end DeltaForest.Protocol
