import DeltaForest.Site
import DeltaForest.Trouble

/-!
# Replay

Recorded messages can be played to an empty forest: commands are received for one participation,
events are followed in their order, and all other messages are skipped. Playing stops at the first
message that is refused. What has been done is summed up in numbers.
-/

namespace DeltaForest

open Protocol

/-- A partition at the end of a replay. -/
structure PartitionSummary where
  root : NodeId
  /-- The number of nodes in it, with the root. -/
  nodes : Nat
  deriving DecidableEq, Repr, Inhabited

/-- What a replay has done. -/
structure ReplaySummary where
  messages : Nat
  /-- Commands and events that were applied. -/
  applied : Nat
  /-- Events without effect. -/
  dropped : Nat
  /-- Messages that are neither commands nor events. -/
  skipped : Nat
  /-- Changes that were made. -/
  changes : Nat
  partitions : List PartitionSummary
  deriving DecidableEq, Repr, Inhabited

instance : Wire PartitionSummary where
  toData p := .object [("id", toData p.root), ("nodes", toData p.nodes)]
  ofData src d := d.record? src do
    let root ← .required "id"
    let nodes ← .required "nodes"
    return ⟨root, nodes⟩

instance : Wire ReplaySummary where
  toData s := .object
    [("messages", toData s.messages), ("applied", toData s.applied),
      ("dropped", toData s.dropped), ("skipped", toData s.skipped),
      ("changes", toData s.changes), ("partitions", toData s.partitions)]
  ofData src d := d.record? src do
    let messages ← .required "messages"
    let applied ← .required "applied"
    let dropped ← .required "dropped"
    let skipped ← .required "skipped"
    let changes ← .required "changes"
    let partitions ← .required "partitions"
    return ⟨messages, applied, dropped, skipped, changes, partitions⟩

/-- Who replays messages. -/
structure Replayer where
  follower : Follower
  /-- The participation for commands. -/
  participation : ParticipationId

/-- An action of a replayer. If it fails, the forest is as the last message has left it. -/
abbrev Replayer.Action : Type → Type := EStateM Trouble Replayer

namespace Replayer

/-- A replayer with an empty forest. -/
def start (types : TypeRegistry) (participation : ParticipationId) (enforcesOrder : Bool) :
    Replayer where
  follower :=
    { site := .empty types
      tracker := if enforcesOrder then some ⟨none⟩ else none }
  participation := participation

/-- The forest of a replayer. -/
def forest (r : Replayer) : Forest := r.follower.site.forest

namespace Action

/-- An action of the follower, for the message of a kind at an index. -/
def onFollower {α : Type} (index : Nat) (kind : String) (action : Follower.Action α) :
    Action α :=
  fun r => match action r.follower with
  | .ok a follower => .ok a { r with follower := follower }
  | .error fault follower => .error (.rejected index kind fault) { r with follower := follower }

/-- Plays a message and counts it. -/
def play (index : Nat) (message : Message) (s : ReplaySummary) : Action ReplaySummary := do
  match message with
  | .command command =>
    let participation := (← get).participation
    let raised ← onFollower index message.kind
      (.onSite (Site.Action.receiveCommand participation command))
    return { s with applied := s.applied + 1, changes := s.changes + raised.length }
  | .event event =>
    let raised ← onFollower index message.kind (Follower.Action.receiveEvent event)
    -- An event that was seen before raises nothing, and neither does one without parts.
    if raised.isEmpty then return { s with dropped := s.dropped + 1 }
    else return { s with applied := s.applied + 1, changes := s.changes + raised.length }
  | _ => return { s with skipped := s.skipped + 1 }

/-- Plays messages from an index on. -/
def playAll : List (Message × Nat) → ReplaySummary → Action ReplaySummary
  | [], s => return s
  | (message, index) :: rest, s => do playAll rest (← play index message s)

/-- The sizes of the partitions. -/
def summaries : Action (List PartitionSummary) :=
  fun r =>
    let sums := r.forest.partitions.mapM fun root => do
      return (⟨root, (← r.forest.nodes.collect root).size⟩ : PartitionSummary)
    match sums with
    | .ok sums => .ok sums r
    | .error fault => .error (.broken fault) r

/-- Plays messages and sums up. -/
def replay (messages : List Message) : Action ReplaySummary := do
  let s ← playAll messages.zipIdx ⟨messages.length, 0, 0, 0, 0, []⟩
  return { s with partitions := ← summaries }

end Action

/-- Every partition, as it travels. -/
def partitions (r : Replayer) : Except Trouble (List Chunk) :=
  r.forest.partitions.mapM fun root => (r.forest.model.chunk root).mapError (.partition root)

end Replayer

end DeltaForest
