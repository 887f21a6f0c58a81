import DeltaForest.Proofs.Sequence

/-!
# What is done at a site

What committing a change and receiving a message come to, once it is known what becomes of the
forest. Telling subscribers of changes may fail, but leaves the forest alone (`keeps_forest_emit`).
-/

namespace DeltaForest

open Protocol

/-- The state that an action leaves, whether it succeeds or fails. -/
def stateAfter {ε σ α : Type} : EStateM.Result ε σ α → σ
  | .ok _ s => s
  | .error _ s => s

/-! ## Sites -/

namespace Site.Action

/-- An action that leaves something about a site alone, whether it succeeds or fails. -/
def Keeps {α β : Type} (view : Site → β) (action : Action α) : Prop :=
  ∀ site, view (stateAfter (action site)) = view site

section Keeps

variable {α β γ : Type} {view : Site → γ}

theorem keeps_pure (a : α) : Keeps view (pure a) := fun _ => rfl

theorem Keeps.bind {action : Action α} {next : α → Action β} (h : Keeps view action)
    (h' : ∀ a, Keeps view (next a)) : Keeps view (action >>= next) := by
  intro site
  have hfirst := h site
  cases haction : action site with
  | ok a site' =>
    rw [haction] at hfirst
    rw [bind_of_ok haction]
    exact (h' a site').trans hfirst
  | error fault site' =>
    rw [haction] at hfirst
    rw [bind_of_error haction]
    exact hfirst

/-- What telling of one change leaves alone is left alone by telling of several. -/
theorem keeps_emitAll (h : ∀ raised, Keeps view (emit raised)) (all : List Raised) :
    Keeps view (all.forM emit) := by
  induction all with
  | nil => exact keeps_pure ()
  | cons raised all ih => exact (h raised).bind fun _ => ih

end Keeps

/-- Telling of a change concerns the bus and the log only. -/
theorem keeps_forest_emit (raised : Raised) : Keeps Site.forest (emit raised) := by
  intro site
  rw [emit]
  dsimp only
  split <;> rfl

variable {site : Site} {f' : Forest} {c : Change} {fault : Fault} {all : List Raised}

theorem onForest_of_ok {α : Type} {action : Forest.Action α} {a : α}
    (h : action site.forest = .ok a f') :
    onForest action site = .ok a { site with forest := f' } := by
  rw [onForest, h]

theorem onForest_of_error {α : Type} {action : Forest.Action α}
    (h : action site.forest = .error fault f') :
    onForest action site = .error fault { site with forest := f' } := by
  rw [onForest, h]

/-- A local change that is made is told of under its number. -/
theorem commit_of_ok (h : Forest.Action.apply c site.forest = .ok () f') :
    commit c site = (emit ⟨.here site.forest.nextLocal, c⟩ >>= fun _ =>
        pure ⟨.here site.forest.nextLocal, c⟩)
      { site with forest := { f' with nextLocal := site.forest.nextLocal + 1 } } := by
  show (onForest (Forest.Action.apply c) >>= _) site = _
  rw [bind_of_ok (onForest_of_ok h)]
  rfl

theorem commit_of_error (h : Forest.Action.apply c site.forest = .error fault f') :
    commit c site = .error fault { site with forest := f' } := by
  show (onForest (Forest.Action.apply c) >>= _) site = _
  rw [bind_of_error (onForest_of_error h)]

/-- What a message amounts to is told of once all of it has been made. -/
theorem receiveCommand_of_ok {participation : ParticipationId} {message : CommandMessage}
    (h : Forest.Action.applyAll (CommandPart.toRaised participation) message.parts site.forest =
      .ok all f') :
    receiveCommand participation message site =
      (all.forM emit >>= fun _ => pure all) { site with forest := f' } := by
  rw [receiveCommand, bind_of_ok (onForest_of_ok h)]

theorem receiveCommand_of_error {participation : ParticipationId} {message : CommandMessage}
    (h : Forest.Action.applyAll (CommandPart.toRaised participation) message.parts site.forest =
      .error fault f') :
    receiveCommand participation message site = .error fault { site with forest := f' } := by
  rw [receiveCommand, bind_of_error (onForest_of_error h)]

end Site.Action

/-! ## Followers -/

namespace Follower.Action

variable {site : Site} {tracker : Option Tracker} {f' : Forest} {fault : Fault}
  {all : List Raised} {message : SequencedEvent}

theorem onSite_of_ok {α : Type} {action : Site.Action α} {a : α} {site' : Site}
    (h : action site = .ok a site') :
    onSite action ⟨site, tracker⟩ = .ok a ⟨site', tracker⟩ := by
  rw [onSite, h]

theorem onSite_of_error {α : Type} {action : Site.Action α} {site' : Site}
    (h : action site = .error fault site') :
    onSite action ⟨site, tracker⟩ = .error fault ⟨site', tracker⟩ := by
  rw [onSite, h]

/-- Judging leaves everything alone. -/
theorem judge_eq_or (number : UInt64) (follower : Follower) :
    (∃ admission, judge number follower = .ok admission follower) ∨
      ∃ fault, judge number follower = .error fault follower := by
  rw [judge]
  split
  · exact .inl ⟨_, rfl⟩
  · split
    · exact .inl ⟨_, rfl⟩
    · exact .inr ⟨_, rfl⟩

/-- An event that is refused for its number is not looked at. -/
theorem receiveEvent_of_gap
    (h : judge message.number ⟨site, tracker⟩ = .error fault ⟨site, tracker⟩) :
    receiveEvent message ⟨site, tracker⟩ = .error fault ⟨site, tracker⟩ := by
  rw [receiveEvent, bind_of_error h]

/-- An event that has been seen is dropped. -/
theorem receiveEvent_of_duplicate
    (h : judge message.number ⟨site, tracker⟩ = .ok .duplicate ⟨site, tracker⟩) :
    receiveEvent message ⟨site, tracker⟩ = .ok [] ⟨site, tracker⟩ := by
  rw [receiveEvent, bind_of_ok h]
  rfl

/-- An event that is made is told of, and the next one is waited for. -/
theorem receiveEvent_of_ok
    (h : judge message.number ⟨site, tracker⟩ = .ok .accept ⟨site, tracker⟩)
    (hall : Forest.Action.applyAll EventPart.toRaised message.event.parts site.forest =
      .ok all f') :
    receiveEvent message ⟨site, tracker⟩ =
      (onSite (all.forM Site.Action.emit) >>= fun _ => pure all)
        ⟨{ site with forest := f' }, tracker.map fun _ => .behind message.number⟩ := by
  have hsite : onSite (.onForest (.applyAll EventPart.toRaised message.event.parts))
      ⟨site, tracker⟩ = .ok all ⟨{ site with forest := f' }, tracker⟩ :=
    onSite_of_ok (Site.Action.onForest_of_ok hall)
  rw [receiveEvent, bind_of_ok h]
  dsimp only
  rw [bind_of_ok hsite]
  rfl

theorem receiveEvent_of_error
    (h : judge message.number ⟨site, tracker⟩ = .ok .accept ⟨site, tracker⟩)
    (hall : Forest.Action.applyAll EventPart.toRaised message.event.parts site.forest =
      .error fault f') :
    receiveEvent message ⟨site, tracker⟩ = .error fault ⟨{ site with forest := f' }, tracker⟩ := by
  have hsite : onSite (.onForest (.applyAll EventPart.toRaised message.event.parts))
      ⟨site, tracker⟩ = .error fault ⟨{ site with forest := f' }, tracker⟩ :=
    onSite_of_error (Site.Action.onForest_of_error hall)
  rw [receiveEvent, bind_of_ok h]
  dsimp only
  rw [bind_of_error hsite]

/-- Telling of what an event amounts to leaves alone what telling of any change does. -/
theorem view_emitAll {γ : Type} {view : Site → γ}
    (h : ∀ raised, Site.Action.Keeps view (Site.Action.emit raised)) (all : List Raised) :
    view (stateAfter ((onSite (all.forM Site.Action.emit) >>= fun _ => pure all)
      ⟨site, tracker⟩)).site = view site := by
  have hkeeps := Site.Action.keeps_emitAll h all site
  cases hemit : all.forM Site.Action.emit site with
  | ok u site' =>
    rw [bind_of_ok (onSite_of_ok hemit)]
    rwa [hemit] at hkeeps
  | error fault site' =>
    rw [bind_of_error (onSite_of_error hemit)]
    rwa [hemit] at hkeeps

end Follower.Action

end DeltaForest
