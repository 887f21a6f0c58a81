import DeltaForest.Bus
import DeltaForest.Forest
import DeltaForest.Protocol.Command.ToChange
import DeltaForest.Protocol.Event.ToChange
import DeltaForest.Protocol.Message

/-!
# Sites

A site is a forest with its bus: the place where changes are made and told of. A change is either
made locally, by `commit`, or received from elsewhere as a message. The parts of a message are
made one after the other and only then told of; if one fails, the forest goes back to where it was
before the first.

Actions on a site keep what has been done before they fail, so that what remains of a failed one
can be seen: a change stays made if only a listener refuses it.
-/

namespace DeltaForest

open Protocol

/-- A forest with its bus. -/
structure Site where
  forest : Forest
  bus : Bus
  /-- Everything that has been handed to listeners, in this order. -/
  log : List Delivery

/-- An action on a site. If it fails, the site is as the failing step left it. -/
abbrev Site.Action : Type → Type := EStateM Fault Site

namespace Site

/-- A site without partitions and subscribers. -/
def empty (types : TypeRegistry) : Site := ⟨.empty types, .empty, []⟩

namespace Action

/-- An action on the forest of a site. -/
def onForest {α : Type} (action : Forest.Action α) : Action α :=
  fun site => match action site.forest with
  | .ok a forest => .ok a { site with forest := forest }
  | .error fault forest => .error fault { site with forest := forest }

/-- Tells the subscribers of a change. -/
def emit (raised : Raised) : Action Unit :=
  fun site =>
    let told := Subscription.tellAll site.forest.model raised site.bus.subscriptions
    let site := { site with
      bus := { site.bus with subscriptions := told.subscriptions }
      log := site.log ++ told.deliveries }
    match told.fault with
    | some fault => .error fault site
    | none => .ok () site

/-- Makes a change that was planned here and tells of it. The number of the change is used up once
    it is made. -/
def commit (change : Change) : Action Raised := do
  let number := (← get).forest.nextLocal
  onForest (Forest.Action.apply change)
  modify fun site => { site with forest := { site.forest with nextLocal := number + 1 } }
  emit ⟨.here number, change⟩
  return ⟨.here number, change⟩

/-- Plans an edit, makes the change and tells of it. -/
def request (edit : Edit) : Action Raised := do
  commit (← onForest (.ask (·.model.plan edit)))

/-- Deletes a child, wherever it is. -/
def deleteChild (child : NodeId) : Action Raised := do
  let place ← onForest (.ask (·.model.locateChild child))
  request (.deleteChild place child)

end Action

end Site

namespace Forest.Action

/-- Makes the changes that parts of a message amount to, each in the state that the ones before it
    have left. -/
def applyParts {α : Type} (toRaised : Model → α → Except Fault Raised) :
    List α → Action (List Raised)
  | [] => return []
  | part :: rest => do
    let raised ← ask fun f => toRaised f.model part
    apply raised.change
    return raised :: (← applyParts toRaised rest)

/-- Makes the changes that all parts of a message amount to, or none. Only if there are several
    parts is there something to go back to. -/
def applyAll {α : Type} (toRaised : Model → α → Except Fault Raised) (parts : List α) :
    Action (List Raised) :=
  fun f => match applyParts toRaised parts f with
  | .ok raised f' => .ok raised f'
  | .error fault f' =>
    .error fault (if parts.length > 1 then f'.restore f.checkpoint else f')

end Forest.Action

namespace Site.Action

/-- Receives a command of a participation. -/
def receiveCommand (participation : ParticipationId) (message : CommandMessage) :
    Action (List Raised) := do
  let raised ← onForest (.applyAll (CommandPart.toRaised participation) message.parts)
  raised.forM emit
  return raised

/-- The fault of a message that is not handled. -/
def unmapped (message : Message) : Fault :=
  .unmapped (message.category.word ++ "/" ++ message.kind)

/-- Receives a message of a participation. It has to be a command. -/
def receive (participation : ParticipationId) : Message → Action (List Raised)
  | .command message => receiveCommand participation message
  | message => throw (unmapped message)

end Site.Action

/-- A site that follows a stream of events. -/
structure Follower where
  site : Site
  /-- What is known about the next number, if the order of events is enforced. -/
  tracker : Option Tracker

/-- An action on a follower. If it fails, the follower is as the failing step left it. -/
abbrev Follower.Action : Type → Type := EStateM Fault Follower

namespace Follower.Action

/-- An action on the site of a follower. -/
def onSite {α : Type} (action : Site.Action α) : Action α :=
  fun follower => match action follower.site with
  | .ok a site => .ok a { follower with site := site }
  | .error fault site => .error fault { follower with site := site }

/-- What to do with an event with a number. -/
def judge (number : UInt64) : Action Admission :=
  fun follower => match follower.tracker with
  | none => .ok .accept follower
  | some tracker =>
    match tracker.check number with
    | .ok admission => .ok admission follower
    | .error fault => .error fault follower

/-- Receives an event. One that has been seen is dropped. -/
def receiveEvent (message : SequencedEvent) : Action (List Raised) := do
  match ← judge message.number with
  | .duplicate => return []
  | .accept =>
    let raised ← onSite (.onForest (.applyAll EventPart.toRaised message.event.parts))
    -- From here on the event has been seen, also if a listener refuses it.
    modify fun follower =>
      { follower with tracker := follower.tracker.map fun _ => .behind message.number }
    onSite (raised.forM Site.Action.emit)
    return raised

/-- Receives a message. It has to be an event. -/
def receive : Message → Action (List Raised)
  | .event message => receiveEvent message
  | message => throw (Site.Action.unmapped message)

end Follower.Action

end DeltaForest
