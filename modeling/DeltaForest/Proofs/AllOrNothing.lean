import DeltaForest.Proofs.Works

/-!
# All or nothing

A change that is not made leaves everything as it was, although it is performed step by step and
nothing is undone: once planning has come to the very same change, no step can fail
(`Site.Reachable.atomic`).

The parts of a message are made one after the other, and it is the same as if each of them had come
as a message of its own, but for two things: if one fails, none has been made, and subscribers are
told of what the parts amount to only behind the last one (`Site.Reachable.composed`).

* `inTurn`: messages are received one after the other, up to the first one that fails;
* `Singly`: how messages of one part each are received, step by step;
* `Singly.inTurn_eq`: the run that comes of it, compared with the parts made in a row;
* `AllOrNothing`: what receiving a message as a whole has to do with receiving its parts in turn.
-/

namespace DeltaForest

open Protocol

variable {types : TypeRegistry} {site : Site} {past : List Checkpoint} {made : List Change}

/-! ## One change -/

/-- A change that fails leaves everything alone, and one that planning comes to again does not
    fail. A commit that fails in this way uses up no number and tells nobody. -/
theorem Site.Reachable.atomic (h : Site.Reachable types site past made) (c : Change)
    (hin : ∀ tree ∈ c.incoming, tree.Obtainable) :
    (∀ fault f', Forest.Action.apply c site.forest = .error fault f' → f' = site.forest) ∧
      (site.forest.model.replan c = .ok c →
        ∃ f', Forest.Action.perform c site.forest = .ok () f') ∧
      ∀ fault f', Forest.Action.apply c site.forest = .error fault f' →
        Site.Action.commit c site = .error fault site := by
  have ht := h.sound.wellFormed.treelike
  have htree : ∀ tree ∈ c.incoming, tree.IsTree := fun tree hmem => (hin tree hmem).isTree
  refine ⟨fun fault f' => Forest.Action.apply_error ht htree, fun hreplan => ?_,
    fun fault f' herror => ?_⟩
  · exact ⟨_, Forest.Action.perform_eq ht (Model.fits_of_replan hreplan) htree⟩
  · obtain rfl := Forest.Action.apply_error ht htree herror
    exact Site.Action.commit_of_error herror

namespace Examples

/-- The book that stands in the library cannot be put there again. The other one can be put next
    to it. -/
theorem atomic_stocked :
    Site.Action.commit shelving stocked = .error (.duplicateNode ⟨"novel"⟩) stocked ∧
      ∃ f', Forest.Action.perform (.childAdded ⟨⟨"city"⟩, ⟨2⟩, 1⟩ sequel) stocked.forest =
        .ok () f' :=
  ⟨(Site.Reachable.atomic reachable_stocked shelving
      (List.forall_mem_singleton.2 (obtainable_of_leaf rfl))).2.2 _ _ rfl,
    (Site.Reachable.atomic reachable_stocked (.childAdded ⟨⟨"city"⟩, ⟨2⟩, 1⟩ sequel)
      (List.forall_mem_singleton.2 (obtainable_of_leaf rfl))).2.1 (by decide +kernel)⟩

end Examples

/-! ## Messages of one part each -/

/-- Receives messages one after the other, up to the first one that fails. -/
def inTurn {σ β : Type} (receive : β → EStateM Fault σ (List Raised)) :
    List β → EStateM Fault σ (List Raised)
  | [] => return []
  | message :: rest => do
    let all ← receive message
    return all ++ (← inTurn receive rest)

/-- A way to receive messages of one part each. As long as the receiver is ready for what is still
    to come, it makes a part that is understood and refuses one that is not. -/
structure Singly {α β σ : Type} (toRaised : Model → α → Except Fault Raised) (parts : β → List α)
    (receive : β → EStateM Fault σ (List Raised)) (forest : σ → Forest)
    (Ready : List β → σ → Prop) : Prop where
  wellFormed : ∀ {messages s}, Ready messages s → (forest s).WellFormed
  step : ∀ {message rest s}, Ready (message :: rest) s → ∃ part, parts message = [part] ∧
    match toRaised (forest s).model part with
    | .ok raised => ∃ s', receive message s = .ok [raised] s' ∧
        forest s' = (forest s).changed raised.change ∧ Ready rest s'
    | .error fault => ∃ s', receive message s = .error fault s'

namespace Singly

variable {α β σ : Type} {toRaised : Model → α → Except Fault Raised} {parts : β → List α}
variable {receive : β → EStateM Fault σ (List Raised)} {forest : σ → Forest}
variable {Ready : List β → σ → Prop}

/-- Messages that are received in turn come to the same as their parts made in a row. -/
theorem inTurn_eq (hs : Singly toRaised parts receive forest Ready) (hr : Reads toRaised)
    {messages : List β} {s : σ} (h : Ready messages s) :
    match Forest.Action.applyParts toRaised (messages.flatMap parts) (forest s) with
    | .ok all f' => ∃ after, inTurn receive messages s = .ok all after ∧ forest after = f'
    | .error fault _ => ∃ after, inTurn receive messages s = .error fault after := by
  induction messages generalizing s with
  | nil => exact ⟨s, rfl, rfl⟩
  | cons message rest ih =>
    obtain ⟨part, hpart, hstep⟩ := hs.step h
    rw [List.flatMap_cons, hpart, List.singleton_append, inTurn]
    cases hraised : toRaised (forest s).model part with
    | error fault =>
      rw [hraised] at hstep
      obtain ⟨s', hreceive⟩ := hstep
      rw [Forest.Action.applyParts_cons_of_error hraised]
      exact ⟨s', bind_of_error hreceive⟩
    | ok raised =>
      rw [hraised] at hstep
      obtain ⟨s', hreceive, hforest, hready⟩ := hstep
      -- The rest is received where this message has led to.
      have hrest := ih hready
      rw [Forest.Action.applyParts_cons_of_ok hr (hs.wellFormed h) hraised, bind_of_ok hreceive,
        ← hforest]
      cases hall : Forest.Action.applyParts toRaised (rest.flatMap parts) (forest s') with
      | ok all f' =>
        rw [hall] at hrest
        obtain ⟨after, hafter, rfl⟩ := hrest
        exact ⟨after, bind_of_ok hafter, rfl⟩
      | error fault f' =>
        rw [hall] at hrest
        obtain ⟨after, hafter⟩ := hrest
        exact ⟨after, bind_of_error hafter⟩

end Singly

/-! ## Messages of many parts -/

/-- Receiving a message as a whole succeeds where receiving its parts in turn does, and leaves what
    `told` says. Otherwise it fails as the first part that fails, and leaves everything alone. -/
structure AllOrNothing {σ : Type} (whole parts : EStateM Fault σ (List Raised)) (s : σ)
    (told : List Raised → σ → σ) : Prop where
  ok_iff : ∀ all s', whole s = .ok all s' ↔
    ∃ after, parts s = .ok all after ∧ s' = told all after
  error_iff : ∀ fault s', whole s = .error fault s' ↔
    s' = s ∧ ∃ after, parts s = .error fault after

/-- What makes the parts of a message in a row, tells of them behind the last one and goes back if
    one fails, receives the message as a whole. -/
theorem Singly.allOrNothing {α β σ : Type} {toRaised : Model → α → Except Fault Raised}
    {parts : β → List α} {receive : β → EStateM Fault σ (List Raised)} {forest : σ → Forest}
    {Ready : List β → σ → Prop} (hs : Singly toRaised parts receive forest Ready)
    (hr : Reads toRaised) {messages : List β} {s : σ} (h : Ready messages s) {ps : List α}
    (hps : messages.flatMap parts = ps) {whole : EStateM Fault σ (List Raised)}
    (told : List Raised → Forest → σ)
    (hok : ∀ {all f'}, Forest.Action.applyAll toRaised ps (forest s) = .ok all f' →
      whole s = .ok all (told all f'))
    (herror : ∀ {fault}, Forest.Action.applyAll toRaised ps (forest s) =
      .error fault (forest s) → whole s = .error fault s) :
    AllOrNothing whole (inTurn receive messages) s fun all after => told all (forest after) := by
  have hturn := hs.inTurn_eq hr h
  have hall := Forest.Action.applyAll_eq hr (hs.wellFormed h) ps
  rw [hps] at hturn
  cases hparts : Forest.Action.applyParts toRaised ps (forest s) with
  | ok all f' =>
    rw [hparts] at hturn hall
    obtain ⟨after, hafter, rfl⟩ := hturn
    -- Taken one by one the parts come to the same forest, and telling comes last on either side.
    have hwhole := hok hall
    constructor
    · intro all' s'
      rw [hwhole, hafter]
      constructor
      · rintro ⟨⟩
        exact ⟨after, rfl, rfl⟩
      · rintro ⟨_, ⟨⟩, rfl⟩
        rfl
    · intro fault s'
      simp [hwhole, hafter]
  | error fault f' =>
    rw [hparts] at hturn hall
    obtain ⟨after, hafter⟩ := hturn
    -- The parts in front of the one that fails are made if they are taken one by one only.
    have hwhole := herror hall
    constructor
    · intro all s'
      simp [hwhole, hafter]
    · intro fault' s'
      simp [hwhole, hafter, eq_comm, and_comm]

namespace Protocol

/-- The parts of a command, each as a message of its own. -/
def CommandMessage.singly (message : CommandMessage) : List CommandMessage :=
  message.parts.map .single

theorem CommandMessage.parts_singly (message : CommandMessage) :
    message.singly.flatMap parts = message.parts := by
  rw [singly, List.flatMap_map]
  exact List.flatMap_singleton' _

/-- Parts of an event as events of their own, numbered one after the other. -/
def SequencedEvent.numbered (number : UInt64) : List EventPart → List SequencedEvent
  | [] => []
  | part :: parts => ⟨number, .single part⟩ :: numbered (Tracker.after number) parts

/-- The parts of an event, each as an event of its own, from the number of the event on. -/
def SequencedEvent.singly (message : SequencedEvent) : List SequencedEvent :=
  numbered message.number message.event.parts

theorem SequencedEvent.parts_numbered (number : UInt64) (parts : List EventPart) :
    (numbered number parts).flatMap (·.event.parts) = parts := by
  induction parts generalizing number with
  | nil => rfl
  | cons part parts ih => exact congrArg (part :: ·) (ih _)

end Protocol

/-- Commands of one part each, received at a site where no listener refuses. -/
theorem Site.singly_commands (hl : types.Lawful) (participation : ParticipationId) :
    Singly (CommandPart.toRaised participation) CommandMessage.parts
      (Action.receiveCommand participation) Site.forest
      fun messages site => (∃ parts : List CommandPart, messages = parts.map .single) ∧
        site.forest.Proper types ∧ site.bus.Willing where
  wellFormed h := h.2.1.wellFormed
  step := by
    rintro message rest site ⟨⟨parts, hparts⟩, hf, hw⟩
    obtain _ | ⟨part, parts⟩ := parts
    · cases hparts
    obtain ⟨rfl, rfl⟩ := List.cons.inj hparts
    refine ⟨part, rfl, ?_⟩
    -- A single command is refused just if its part cannot be made.
    cases hpart : part.toRaised participation site.forest.model with
    | error fault =>
      exact ⟨_, Action.receiveCommand_of_error (Forest.Action.applyAll_singleton_of_error hpart)⟩
    | ok raised =>
      obtain ⟨site', hreceive, hforest, hf', hw'⟩ := exists_receiveCommand hl hf hw hpart
      exact ⟨site', hreceive, hforest, ⟨parts, rfl⟩, hf', hw'⟩

/-- The next number is the one that is waited for. -/
theorem Follower.Action.judge_behind (number : UInt64) (site : Site) (tracker : Option Tracker) :
    judge (Tracker.after number) ⟨site, tracker.map fun _ => .behind number⟩ =
      .ok .accept ⟨site, tracker.map fun _ => .behind number⟩ := by
  cases tracker with
  | none => rfl
  | some tracker => simp [judge, Tracker.behind, Tracker.check]

/-- Events of one part each, numbered one after the other, received where the first number is
    waited for. -/
theorem Follower.singly_events (hl : types.Lawful) :
    Singly EventPart.toRaised (fun message : SequencedEvent => message.event.parts)
      Action.receiveEvent (fun follower => follower.site.forest)
      fun messages follower => (∃ number parts, messages = SequencedEvent.numbered number parts ∧
        Action.judge number follower = .ok .accept follower) ∧
          follower.site.forest.Proper types ∧ follower.site.bus.Willing where
  wellFormed h := h.2.1.wellFormed
  step := by
    rintro message rest ⟨site, tracker⟩ ⟨⟨number, parts, hparts, hjudge⟩, hf, hw⟩
    obtain _ | ⟨part, parts⟩ := parts
    · cases hparts
    obtain ⟨rfl, rfl⟩ := List.cons.inj hparts
    refine ⟨part, rfl, ?_⟩
    -- A single event that is accepted is refused just if its part cannot be made, and then the next
    -- number is awaited.
    cases hpart : part.toRaised site.forest.model with
    | error fault =>
      exact ⟨_, Action.receiveEvent_of_error hjudge
        (Forest.Action.applyAll_singleton_of_error hpart)⟩
    | ok raised =>
      obtain ⟨site', hreceive, hforest, hf', hw'⟩ :=
        Site.exists_receiveEvent hl hf hw hpart ⟨number, .single part⟩ rfl hjudge
      exact ⟨_, hreceive, hforest,
        ⟨Tracker.after number, parts, rfl, Action.judge_behind number site' tracker⟩, hf', hw'⟩

/-- A message is received as its parts are in turn, or not at all. Subscribers are told of all that
    the parts amount to, in this order, behind the last part; an event that is received is the last
    one that has been seen. -/
theorem Site.Reachable.composed {languages : List Language}
    (htypes : TypeRegistry.registerAll .empty languages = .ok types)
    (h : Site.Reachable types site past made) (hw : site.bus.Willing) :
    (∀ participation message,
      AllOrNothing (Site.Action.receiveCommand participation message)
        (inTurn (Site.Action.receiveCommand participation) message.singly) site
        fun all after => { site with forest := after.forest }.toldAll all) ∧
    ∀ tracker message,
      Follower.Action.judge message.number ⟨site, tracker⟩ = .ok .accept ⟨site, tracker⟩ →
      AllOrNothing (Follower.Action.receiveEvent message)
        (inTurn Follower.Action.receiveEvent message.singly) ⟨site, tracker⟩
        fun all after => ⟨{ site with forest := after.site.forest }.toldAll all,
          tracker.map fun _ => .behind message.number⟩ := by
  have hl := TypeRegistry.lawful_of_registerAll htypes
  have hf := h.proper
  constructor
  · intro participation message
    refine (Site.singly_commands hl participation).allOrNothing (reads_commands participation)
      ⟨⟨message.parts, rfl⟩, hf, hw⟩ message.parts_singly
      (fun all f' => { site with forest := f' }.toldAll all) (fun {all f'} hall => ?_)
      fun hall => Site.Action.receiveCommand_of_error hall
    -- Nobody refuses, so everybody is told of all the parts.
    have hemit := Site.emitAll_of_follows hl hf hw
      (.of_applyAll (reads_commands participation) hf.wellFormed hall)
    rw [Site.Action.receiveCommand_of_ok hall, bind_of_ok hemit]
    rfl
  · intro tracker message hjudge
    refine (Follower.singly_events hl).allOrNothing reads_events
      ⟨⟨message.number, message.event.parts, rfl, hjudge⟩, hf, hw⟩
      (SequencedEvent.parts_numbered _ _)
      (fun all f' => ⟨{ site with forest := f' }.toldAll all,
        tracker.map fun _ => .behind message.number⟩) (fun {all f'} hall => ?_)
      fun hall => Follower.Action.receiveEvent_of_error hjudge hall
    have hemit := Site.emitAll_of_follows hl hf hw (.of_applyAll reads_events hf.wellFormed hall)
    rw [Follower.Action.receiveEvent_of_ok hjudge hall,
      bind_of_ok (Follower.Action.onSite_of_ok hemit)]
    rfl

namespace Examples

/-- A site with a library and a book in it, and somebody who wants to know of everything. -/
def watched : Site := Call.after stocked (.subscribe (.watcher none) fun _ => none)

theorem reachable_watched : Site.Reachable libraryTypes watched [] [opening, shelving] :=
  .call (.subscribe (.watcher none) fun _ => none) reachable_stocked (List.forall_mem_nil _)

/-- The first command gives the book a title, the second one takes away its pages, which have never
    been counted. -/
def retitling : CommandMessage :=
  .composite
    [⟨⟨"title"⟩, .addProperty ⟨"novel"⟩ ⟨"library", "1", "Book-title"⟩ "Emma", none⟩,
      ⟨⟨"pages"⟩, .deleteProperty ⟨"novel"⟩ ⟨"library", "1", "Book-pages"⟩, none⟩] none

/-- The book has a title and a number of pages. -/
def described : SequencedEvent :=
  ⟨7, .composite
    [⟨[], .propertyAdded ⟨"novel"⟩ ⟨"library", "1", "Book-title"⟩ "Emma", none⟩,
      ⟨[], .propertyAdded ⟨"novel"⟩ ⟨"library", "1", "Book-pages"⟩ "474", none⟩] none⟩

/-- The two commands are refused, and the book has no title. The two events are made. -/
theorem composed_watched :
    Site.Action.receiveCommand ⟨"client"⟩ retitling watched =
        .error (.unset ⟨"novel"⟩ ⟨"library", "1", "Book-pages"⟩) watched ∧
      ∃ all site', Follower.Action.receiveEvent described ⟨watched, some ⟨some 7⟩⟩ =
        .ok all ⟨site', some ⟨some 8⟩⟩ ∧ all.length = 2 ∧ site'.log.length = 2 := by
  have hwilling : watched.bus.Willing := List.forall_mem_singleton.2 fun _ => rfl
  obtain ⟨hcommand, hevent⟩ :=
    Site.Reachable.composed registerAll_library reachable_watched hwilling
  constructor
  · exact ((hcommand ⟨"client"⟩ retitling).error_iff _ _).2 ⟨rfl, _, rfl⟩
  · have hall := ((hevent (some ⟨some 7⟩) described rfl).ok_iff _ _).2 ⟨_, rfl, rfl⟩
    exact ⟨_, _, hall, rfl, rfl⟩

end Examples

end DeltaForest
