import DeltaForest.Protocol.Command.OfChange
import DeltaForest.Protocol.Event.OfChange
import DeltaForest.Model
import DeltaForest.Stream

/-!
# The bus

Whoever wants to know of the changes of a forest subscribes to its bus. There are three kinds of
subscribers. A `watcher` is told of the changes themselves, of all or of one category. A
`publisher` turns changes that were made in the forest into commands and passes over those that
came from elsewhere. A `replicator` turns every change into a numbered event.

What a subscriber makes of a change is handed to its listener. A listener may refuse; then telling
the others stops. Everything that was handed over is kept as a delivery.
-/

namespace DeltaForest

open Protocol

/-- What turns changes into something to tell. -/
inductive Subscriber
  /-- Tells of changes themselves, of one category if there is a filter. -/
  | watcher (filter : Option ChangeCategory)
  /-- Tells of local changes as commands. -/
  | publisher (ids : CommandIds)
  /-- Tells of all changes as events. A local change gets the participation and a new command id
      as its origin. -/
  | replicator (participation : ParticipationId) (numbers : Counter) (ids : CommandIds)
  deriving DecidableEq, Repr, Inhabited

/-- What is told. -/
inductive Notice
  /-- A change, and what is known right after it. -/
  | raised (event : Raised) (model : Model)
  | command (part : CommandPart)
  | event (event : SequencedEvent)

/-- The event for a change with its origins, and what is left to number and name others. -/
def Raised.toEvent (types : TypeRegistry) (participation : ParticipationId)
    (numbers : Counter) (ids : CommandIds) (raised : Raised) :
    Except Fault (SequencedEvent × Counter × CommandIds) := do
  let event ← Event.ofChange types raised.change
  let (origins, ids) := match raised.origin with
    | .commands sources => (sources, ids)
    -- Nobody has sent a command for a change that was made here.
    | .here _ =>
      let (id, ids) := ids.take
      ([⟨participation, id⟩], ids)
  let (number, numbers) := numbers.take
  return (⟨number, .single ⟨origins, event, none⟩⟩, numbers, ids)

/-- What a subscriber has to tell of a change, and the subscriber from then on. -/
def Subscriber.notice (model : Model) (raised : Raised) :
    Subscriber → Except Fault (Option Notice × Subscriber)
  | watcher filter =>
    if filter.all (· = raised.change.category) then
      return (some (.raised raised model), watcher filter)
    else return (none, watcher filter)
  | publisher ids =>
    if raised.origin.isHere then do
      let command ← Command.ofChange model.types raised.change
      let (id, ids) := ids.take
      return (some (.command ⟨id, command, none⟩), publisher ids)
    else return (none, publisher ids)
  | replicator participation numbers ids => do
    let (event, numbers, ids) ← raised.toEvent model.types participation numbers ids
    return (some (.event event), replicator participation numbers ids)

/-- Who listens to a subscriber. -/
structure Listener where
  /-- How often it has been called. -/
  calls : Nat
  /-- Which calls it refuses, counted from zero. -/
  refusal : Nat → Option Fault

/-- A subscriber on a bus. -/
structure Subscription where
  id : Nat
  subscriber : Subscriber
  listener : Listener

/-- Something that was handed to a listener. -/
structure Delivery where
  /-- The id of the subscription. -/
  subscription : Nat
  notice : Notice
  /-- Why the listener refused it, if it did. -/
  refusal : Option Fault

/-- What comes of telling subscribers of a change. -/
structure Telling where
  subscriptions : List Subscription
  deliveries : List Delivery
  fault : Option Fault

namespace Subscription

/-- Tells one subscriber of a change. -/
def tell (model : Model) (raised : Raised) (s : Subscription) : Telling :=
  match s.subscriber.notice model raised with
  | .error fault => ⟨[s], [], some fault⟩
  | .ok (none, subscriber) => ⟨[{ s with subscriber := subscriber }], [], none⟩
  | .ok (some notice, subscriber) =>
    -- A call counts for the listener also if it refuses.
    let refusal := s.listener.refusal s.listener.calls
    let listener := { s.listener with calls := s.listener.calls + 1 }
    ⟨[{ s with subscriber := subscriber, listener := listener }], [⟨s.id, notice, refusal⟩],
      refusal⟩

/-- Tells subscribers of a change, one after the other, until one fails. -/
def tellAll (model : Model) (raised : Raised) : List Subscription → Telling
  | [] => ⟨[], [], none⟩
  | s :: rest =>
    let first := s.tell model raised
    match first.fault with
    -- Those behind are not called and stay as they are.
    | some fault => ⟨first.subscriptions ++ rest, first.deliveries, some fault⟩
    | none =>
      let others := tellAll model raised rest
      ⟨first.subscriptions ++ others.subscriptions, first.deliveries ++ others.deliveries,
        others.fault⟩

end Subscription

/-- All who want to know of the changes of a forest, in the order in which they came. -/
structure Bus where
  nextId : Nat
  subscriptions : List Subscription

namespace Bus

/-- A bus without subscribers. -/
def empty : Bus := ⟨0, []⟩

/-- A bus with one more subscriber, and the id of the subscription. -/
def subscribe (b : Bus) (subscriber : Subscriber) (refusal : Nat → Option Fault) : Nat × Bus :=
  (b.nextId, ⟨b.nextId + 1, b.subscriptions ++ [⟨b.nextId, subscriber, ⟨0, refusal⟩⟩]⟩)

/-- A bus without a subscription, and whether it was there. -/
def unsubscribe (b : Bus) (id : Nat) : Bool × Bus :=
  (b.subscriptions.any (·.id = id),
    { b with subscriptions := b.subscriptions.filter (·.id ≠ id) })

end Bus

end DeltaForest
