import DeltaForest.Proofs.Exported
import DeltaForest.Proofs.OnceEach
import DeltaForest.Proofs.Outbound
import DeltaForest.Replay

/-!
# The course of a replay

What becomes of a message that is played, and is not refused, is told by its `Fate`: a command is
obeyed, an event is followed or has been seen already, and everything else is passed over. One
message takes a replayer from one state to another (`Replayer.Meets`), and so do several messages
with a fate each (`Replayer.Plays`). A replay succeeds exactly if its messages can be played in this
way, and it goes by the fates alone when it counts (`Replayer.Action.replay_eq_ok`).

Played messages are calls at the site of the replayer. So the forest has come about by the changes
that were raised, in their order and no others (`Replayer.Plays.reachable`), and every part of a
command that is obeyed, or of an event that is followed, has raised one of them
(`Replayer.Plays.length_raised`).
-/

namespace DeltaForest

open Protocol

/-! ## Events -/

/-- The order of events is enforced, and a higher number is waited for. -/
def Follower.HasSeen (follower : Follower) (number : UInt64) : Prop :=
  ∃ tracker, follower.tracker = some tracker ∧ tracker.check number = .ok .duplicate

namespace Follower.Action

variable {follower later : Follower} {message : SequencedEvent} {all : List Raised}

/-- An event is passed over if its number has been seen. -/
theorem judge_eq_duplicate {number : UInt64} :
    judge number follower = .ok .duplicate follower ↔ follower.HasSeen number := by
  rw [judge, HasSeen]
  cases follower.tracker with
  | none => simp
  | some tracker => cases htracker : tracker.check number <;> simp [htracker]

/-- An event that has been seen raises nothing and changes nothing. -/
theorem receiveEvent_of_seen (h : follower.HasSeen message.number) :
    receiveEvent message follower = .ok [] follower :=
  receiveEvent_of_duplicate (judge_eq_duplicate.2 h)

/-- An event that has not been seen and is not refused is made part by part, and the next one is
    waited for. -/
theorem receiveEvent_of_new (hnew : ¬follower.HasSeen message.number)
    (h : receiveEvent message follower = .ok all later) :
    judge message.number follower = .ok .accept follower ∧
      (∃ f', Forest.Action.applyAll EventPart.toRaised message.event.parts
        follower.site.forest = .ok all f') ∧
      later.tracker = follower.tracker.map fun _ => .behind message.number := by
  obtain ⟨site, tracker⟩ := follower
  rcases judge_eq_or message.number ⟨site, tracker⟩ with ⟨_ | _, hjudge⟩ | ⟨fault, hjudge⟩
  · refine ⟨hjudge, ?_⟩
    cases hall : Forest.Action.applyAll EventPart.toRaised message.event.parts site.forest with
    | error fault f' => rw [receiveEvent_of_error hjudge hall] at h; cases h
    | ok all' f' =>
      rw [receiveEvent_of_ok hjudge hall] at h
      have htracker := @tracker_emitAll { site with forest := f' }
        (tracker.map fun _ => .behind message.number) all'
      -- Nobody has refused, as the event has been received.
      cases hemit : all'.forM Site.Action.emit { site with forest := f' } with
      | error fault site' => rw [bind_of_error (onSite_of_error hemit)] at h; cases h
      | ok u site' =>
        rw [h] at htracker
        rw [bind_of_ok (onSite_of_ok hemit)] at h
        cases h
        exact ⟨⟨f', rfl⟩, htracker⟩
  · exact absurd (judge_eq_duplicate.1 hjudge) hnew
  · rw [receiveEvent_of_gap hjudge] at h
    cases h

end Follower.Action

/-- A message that is made raises one change for each part. -/
theorem Forest.Action.length_applyAll {α : Type} {toRaised : Model → α → Except Fault Raised}
    {parts : List α} {f f' : Forest} {all : List Raised}
    (h : applyAll toRaised parts f = .ok all f') : all.length = parts.length :=
  (forall₂_applyAll (R := fun _ _ => True) (fun _ _ _ _ => trivial) h).length_eq.symm

/-! ## One message -/

/-- The numbers with which a replay of some messages starts. -/
def ReplaySummary.blank (messages : List Message) : ReplaySummary :=
  ⟨messages.length, 0, 0, 0, 0, []⟩

/-- What becomes of a message that is not refused. -/
inductive Fate
  /-- A command is obeyed. -/
  | obeyed (raised : List Raised)
  /-- An event is followed. -/
  | followed (raised : List Raised)
  /-- An event has been seen, by its number. -/
  | seen
  /-- A message is neither a command nor an event. -/
  | passed
  deriving DecidableEq

namespace Fate

/-- The changes that a message has raised. -/
def raised : Fate → List Raised
  | obeyed all | followed all => all
  | seen | passed => []

/-- How a message is counted. -/
def counted (s : ReplaySummary) : Fate → ReplaySummary
  | obeyed all => { s with applied := s.applied + 1, changes := s.changes + all.length }
  | followed all =>
    if all.isEmpty then { s with dropped := s.dropped + 1 }
    else { s with applied := s.applied + 1, changes := s.changes + all.length }
  | seen => { s with dropped := s.dropped + 1 }
  | passed => { s with skipped := s.skipped + 1 }

end Fate

/-- The number of parts of a command or an event. -/
def Protocol.Message.width : Message → Nat
  | .command c => c.parts.length
  | .event e => e.event.parts.length
  | _ => 0

namespace Replayer

/-- A replayer plays a message and is another one then. -/
inductive Meets (r : Replayer) : Message → Fate → Replayer → Prop
  | obeyed {command : CommandMessage} {all : List Raised} {site : Site} :
    Site.Action.receiveCommand r.participation command r.follower.site = .ok all site →
      r.Meets (.command command) (.obeyed all)
        { r with follower := { r.follower with site := site } }
  | followed {event : SequencedEvent} {all : List Raised} {follower : Follower} :
    ¬r.follower.HasSeen event.number →
      Follower.Action.receiveEvent event r.follower = .ok all follower →
        r.Meets (.event event) (.followed all) { r with follower := follower }
  | seen {event : SequencedEvent} :
    r.follower.HasSeen event.number → r.Meets (.event event) .seen r
  | passed {message : Message} :
    (∀ command, message ≠ .command command) → (∀ event, message ≠ .event event) →
      r.Meets message .passed r

/-- A replayer plays messages, one after the other. -/
inductive Plays : Replayer → List Message → List Fate → Replayer → Prop
  | nil (r : Replayer) : r.Plays [] [] r
  | cons {r r' r'' : Replayer} {message : Message} {messages : List Message} {fate : Fate}
    {fates : List Fate} : r.Meets message fate r' → r'.Plays messages fates r'' →
      r.Plays (message :: messages) (fate :: fates) r''

variable {types : TypeRegistry} {r r' : Replayer} {message : Message} {messages : List Message}
  {fate : Fate} {fates : List Fate} {past : List Checkpoint} {made : List Change}

namespace Meets

/-- A message that is played is a call at the site. -/
theorem reachable (h : r.Meets message fate r')
    (hr : Site.Reachable types r.follower.site past made) :
    Site.Reachable types r'.follower.site past (made ++ fate.raised.map (·.change)) := by
  cases h with
  | @obeyed command all site hreceive =>
    obtain ⟨f', hall⟩ := Site.Action.exists_of_receiveCommand hreceive
    have hcall := hr.call (.receive r.participation command) (List.forall_mem_nil _)
    rw [Call.after, hreceive, Call.made, Call.madeOf, hall] at hcall
    exact hcall
  | @followed event all follower hnew hreceive =>
    -- What the event has raised has been made by the call, as its number was accepted.
    have hcall := hr.call (.follow r.follower.tracker event) (List.forall_mem_nil _)
    obtain ⟨hjudge, ⟨f', hall⟩, -⟩ := Follower.Action.receiveEvent_of_new hnew hreceive
    have hafter : Follower.Action.receiveEvent event ⟨r.follower.site, r.follower.tracker⟩ =
        .ok all follower := hreceive
    have haccept : Follower.Action.judge event.number ⟨r.follower.site, r.follower.tracker⟩ =
        .ok .accept r.follower := hjudge
    rw [Call.after, hafter, Call.made, haccept, Call.madeOf, hall] at hcall
    exact hcall
  | seen => exact (List.append_nil made).symm ▸ hr
  | passed => exact (List.append_nil made).symm ▸ hr

/-- Every part raises one change, unless the message has been seen. -/
theorem length_raised (h : r.Meets message fate r') :
    fate.raised.length = if fate = .seen then 0 else message.width := by
  cases h with
  | obeyed hreceive =>
    obtain ⟨f', hall⟩ := Site.Action.exists_of_receiveCommand hreceive
    rw [if_neg Fate.noConfusion]
    exact Forest.Action.length_applyAll hall
  | followed hnew hreceive =>
    obtain ⟨-, ⟨f', hall⟩, -⟩ := Follower.Action.receiveEvent_of_new hnew hreceive
    rw [if_neg Fate.noConfusion]
    exact Forest.Action.length_applyAll hall
  | seen => rfl
  -- Messages of other kinds are neither obeyed nor followed, and have no width.
  | passed hcommand hevent =>
    rw [if_neg Fate.noConfusion]
    cases message with
    | command command => exact absurd rfl (hcommand command)
    | event event => exact absurd rfl (hevent event)
    | _ => rfl

/-- Who does not look at the order never does. -/
theorem tracker_eq_none (h : r.Meets message fate r') (hr : r.follower.tracker = none) :
    r'.follower.tracker = none ∧ fate ≠ .seen := by
  cases h with
  | obeyed => exact ⟨hr, Fate.noConfusion⟩
  | followed hnew hreceive =>
    obtain ⟨-, -, htracker⟩ := Follower.Action.receiveEvent_of_new hnew hreceive
    rw [hr] at htracker
    exact ⟨htracker, Fate.noConfusion⟩
  | seen hseen =>
    obtain ⟨tracker, htracker, -⟩ := hseen
    exact absurd (hr.symm.trans htracker) (Option.some_ne_none tracker).symm
  | passed => exact ⟨hr, Fate.noConfusion⟩

end Meets

/-! ## Several messages -/

namespace Plays

variable (h : r.Plays messages fates r')

include h

/-- The forest has come about by what was raised. -/
theorem reachable (hr : Site.Reachable types r.follower.site past made) :
    Site.Reachable types r'.follower.site past
      (made ++ (fates.flatMap Fate.raised).map (·.change)) := by
  induction h generalizing made with
  | nil => exact (List.append_nil made).symm ▸ hr
  | cons hfirst _ ih =>
    rw [List.flatMap_cons, List.map_append, ← List.append_assoc]
    exact ih (hfirst.reachable hr)

/-- An event that has been seen has raised nothing, and any other message as much as it is wide. -/
theorem length_raised : List.Forall₂
    (fun message fate => fate.raised.length = if fate = .seen then 0 else message.width)
    messages fates := by
  induction h with
  | nil => exact .nil
  | cons hfirst _ ih => exact .cons hfirst.length_raised ih

/-- Where the order is not looked at, nothing has been seen. -/
theorem seen_notMem (hr : r.follower.tracker = none) : .seen ∉ fates := by
  induction h with
  | nil => exact List.not_mem_nil
  | cons hfirst _ ih =>
    obtain ⟨htracker, hne⟩ := hfirst.tracker_eq_none hr
    rw [List.mem_cons, not_or]
    exact ⟨hne.symm, ih htracker⟩

end Plays

/-- Where playing comes to has come about by the changes raised on the way. -/
theorem reachable_of_plays {participation : ParticipationId} {enforcesOrder : Bool}
    (h : (start types participation enforcesOrder).Plays messages fates r') :
    Site.Reachable types r'.follower.site [] ((fates.flatMap Fate.raised).map (·.change)) :=
  h.reachable (.empty types)

/-! ## Replays -/

namespace Action

variable {s s' : ReplaySummary}

/-- Two actions succeed one after the other if the first one does and then the second one. -/
theorem bind_eq_ok {α β : Type} {action : Action α} {next : α → Action β} {b : β} :
    (action >>= next) r = .ok b r' ↔ ∃ a r₁, action r = .ok a r₁ ∧ next a r₁ = .ok b r' := by
  cases haction : action r with
  | ok a r₁ => simp [bind_of_ok haction]
  | error trouble r₁ => simp [bind_of_error haction]

theorem pure_eq_ok {α : Type} {a b : α} : (pure a : Action α) r = .ok b r' ↔ a = b ∧ r = r' :=
  EStateM.Result.ok.injEq a r b r' ▸ Iff.rfl

/-- An action of the follower succeeds if it does so on the follower. -/
theorem onFollower_eq_ok {α : Type} {index : Nat} {kind : String} {action : Follower.Action α}
    {a : α} : onFollower index kind action r = .ok a r' ↔
      ∃ follower, action r.follower = .ok a follower ∧ { r with follower := follower } = r' := by
  rw [onFollower]
  cases action r.follower <;> simp [and_comm]

/-- An action of the site succeeds if it does so on the site. -/
theorem onSite_eq_ok {α : Type} {action : Site.Action α} {follower later : Follower} {a : α} :
    Follower.Action.onSite action follower = .ok a later ↔
      ∃ site, action follower.site = .ok a site ∧ { follower with site := site } = later := by
  rw [Follower.Action.onSite]
  cases action follower.site <;> simp [and_comm]

theorem play_command (index : Nat) (command : CommandMessage) :
    play index (.command command) s r =
      (onFollower index command.kind (.onSite (Site.Action.receiveCommand r.participation command))
        >>= fun all => pure ((Fate.obeyed all).counted s)) r := rfl

theorem play_event (index : Nat) (event : SequencedEvent) :
    play index (.event event) s =
      onFollower index event.event.kind (Follower.Action.receiveEvent event)
        >>= fun all => pure ((Fate.followed all).counted s) := by
  refine bind_congr fun all => ?_
  rw [Fate.counted]
  split <;> rfl

/-- A message that is played meets a fate, and is counted by it. -/
theorem exists_meets_of_play {index : Nat} (h : play index message s r = .ok s' r') :
    ∃ fate, r.Meets message fate r' ∧ fate.counted s = s' := by
  cases message with
  | command command =>
    rw [play_command, bind_eq_ok] at h
    obtain ⟨all, _, hfollower, h⟩ := h
    obtain ⟨follower, hsite, rfl⟩ := onFollower_eq_ok.1 hfollower
    obtain ⟨site, hreceive, rfl⟩ := onSite_eq_ok.1 hsite
    obtain ⟨rfl, rfl⟩ := pure_eq_ok.1 h
    exact ⟨_, .obeyed hreceive, rfl⟩
  | event event =>
    rw [play_event, bind_eq_ok] at h
    obtain ⟨all, _, hfollower, h⟩ := h
    obtain ⟨follower, hreceive, rfl⟩ := onFollower_eq_ok.1 hfollower
    obtain ⟨rfl, rfl⟩ := pure_eq_ok.1 h
    by_cases hseen : r.follower.HasSeen event.number
    · -- Nothing is raised then, and so both fates count as the same.
      rw [Follower.Action.receiveEvent_of_seen hseen] at hreceive
      cases hreceive
      exact ⟨_, .seen hseen, rfl⟩
    · exact ⟨_, .followed hseen hreceive, rfl⟩
  | _ =>
    cases h
    exact ⟨_, .passed (fun _ => Message.noConfusion) fun _ => Message.noConfusion, rfl⟩

/-- A message that meets a fate is played and counted by it. -/
theorem play_of_meets {index : Nat} {fate : Fate} (h : r.Meets message fate r') :
    play index message s r = .ok (fate.counted s) r' := by
  cases h with
  | obeyed hreceive =>
    rw [play_command, bind_of_ok (onFollower_eq_ok.2 ⟨_, onSite_eq_ok.2 ⟨_, hreceive, rfl⟩, rfl⟩)]
    rfl
  | followed _ hreceive =>
    rw [play_event, bind_of_ok (onFollower_eq_ok.2 ⟨_, hreceive, rfl⟩)]
    rfl
  | seen hseen =>
    rw [play_event, bind_of_ok
      (onFollower_eq_ok.2 ⟨_, Follower.Action.receiveEvent_of_seen hseen, rfl⟩)]
    rfl
  | passed hcommand hevent =>
    cases message with
    | command command => exact absurd rfl (hcommand command)
    | event event => exact absurd rfl (hevent event)
    | _ => rfl

/-- A message is counted by what becomes of it. -/
theorem play_eq_ok {index : Nat} : play index message s r = .ok s' r' ↔
    ∃ fate, r.Meets message fate r' ∧ fate.counted s = s' := by
  refine ⟨exists_meets_of_play, ?_⟩
  rintro ⟨fate, hmeets, rfl⟩
  exact play_of_meets hmeets

/-- Messages are played if each of them is met in the state that the ones before it have left. -/
theorem playAll_eq_ok {first : Nat} : playAll (messages.zipIdx first) s r = .ok s' r' ↔
    ∃ fates, r.Plays messages fates r' ∧ fates.foldl Fate.counted s = s' := by
  induction messages generalizing first s r with
  | nil =>
    rw [List.zipIdx_nil, playAll, pure_eq_ok]
    constructor
    · rintro ⟨rfl, rfl⟩
      exact ⟨[], .nil r, rfl⟩
    · rintro ⟨fates, ⟨⟩, rfl⟩
      exact ⟨rfl, rfl⟩
  | cons message messages ih =>
    rw [List.zipIdx_cons, playAll, bind_eq_ok]
    -- The first message meets its fate, and the others go on from there.
    simp only [play_eq_ok, ih]
    constructor
    · rintro ⟨_, r₁, ⟨fate, hmeets, rfl⟩, fates, hplays, rfl⟩
      exact ⟨fate :: fates, .cons hmeets hplays, rfl⟩
    · rintro ⟨fates, hplays, rfl⟩
      cases hplays with
      | cons hmeets hplays => exact ⟨_, _, ⟨_, hmeets, rfl⟩, _, hplays, rfl⟩

/-- The summaries are those of the partitions in their order, and change nothing. -/
theorem summaries_eq_ok {sums : List PartitionSummary} : summaries r = .ok sums r' ↔
    (r.forest.partitions.mapM fun root => do
      return (⟨root, (← r.forest.nodes.collect root).size⟩ : PartitionSummary)) = .ok sums ∧
      r = r' := by
  rw [summaries]
  split <;> simp_all

/-- All partitions of a well-formed forest can be counted. -/
theorem summaries_of_wellFormed (h : r.forest.WellFormed) :
    summaries r =
      .ok (r.forest.partitions.map fun root => ⟨root, (r.forest.nodes.depthFirst root).length⟩)
        r := by
  refine summaries_eq_ok.2 ⟨mapM_eq_ok.2 ?_, rfl⟩
  rw [List.forall₂_map_right_iff, List.forall₂_same]
  intro root hroot
  obtain ⟨tree, htree⟩ := h.treelike.exists_collect ((h.roots root).1 hroot).1
  have hsize : tree.size = (r.forest.nodes.depthFirst root).length := by
    rw [← NodeTable.ids_collect h.treelike.keyed htree, List.length_map]
    rfl
  rw [htree, ok_bind, hsize]
  rfl

/-- A replay succeeds if its messages can be played, and the partitions that there are then can be
    counted. -/
theorem replay_eq_ok : replay messages r = .ok s r' ↔
    ∃ fates sums, r.Plays messages fates r' ∧ summaries r' = .ok sums r' ∧
      { fates.foldl Fate.counted (.blank messages) with partitions := sums } = s := by
  rw [replay, bind_eq_ok]
  constructor
  · rintro ⟨_, r₁, hall, h⟩
    obtain ⟨sums, r₂, hsums, h⟩ := bind_eq_ok.1 h
    obtain ⟨rfl, rfl⟩ := pure_eq_ok.1 h
    obtain ⟨fates, hplays, rfl⟩ := playAll_eq_ok.1 hall
    obtain ⟨-, rfl⟩ := summaries_eq_ok.1 hsums
    exact ⟨fates, sums, hplays, hsums, rfl⟩
  · rintro ⟨fates, sums, hplays, hsums, rfl⟩
    exact ⟨_, r', playAll_eq_ok.2 ⟨fates, hplays, rfl⟩, by rw [bind_of_ok hsums]; rfl⟩

end Action

/-- Messages that can be played can be replayed. -/
theorem Plays.replay_eq (h : r.Plays messages fates r') (hwell : r'.forest.WellFormed) :
    Action.replay messages r = .ok
      { fates.foldl Fate.counted (.blank messages) with
        partitions := r'.forest.partitions.map fun root =>
          ⟨root, (r'.forest.nodes.depthFirst root).length⟩ } r' :=
  Action.replay_eq_ok.2 ⟨fates, _, h, Action.summaries_of_wellFormed hwell, rfl⟩

end Replayer

/-! ## A library that is announced -/

namespace Examples

/-- A node as it travels that has nothing on it. -/
def bareItem (id : String) (classifier : String) : Chunk.Item where
  id := ⟨id⟩
  classifier := library.pointer classifier
  properties := []
  containments := []
  references := []
  annotations := []
  parent := none

/-- It is told that the library has come. -/
def announcement : EventPart := ⟨[], .partitionAdded ⟨[bareItem "city" "Library"]⟩, none⟩

theorem toRaised_announcement :
    announcement.toRaised (Forest.empty libraryTypes).model = .ok ⟨.commands [], opening⟩ := by
  have hread : (⟨[bareItem "city" "Library"]⟩ : Chunk).toSubtree libraryTypes ∅ = .ok city :=
    Chunk.toSubtree_eq_ok.2 ⟨[city.root], by decide +kernel, by decide +kernel, by decide +kernel,
      Subtree.single_of_leaf rfl⟩
  refine EventPart.toRaised_eq_ok.2 ⟨opening, ?_, rfl⟩
  refine Event.toChange_eq_ok.2 ⟨.addPartition city, ?_, rfl, rfl⟩
  exact bind_eq_ok.2 ⟨city, hread, rfl⟩

/-- It is told that the book has been put into the library. -/
def delivery : EventPart :=
  ⟨[], .childAdded ⟨⟨"city"⟩, library.pointer "Library-books", 0⟩ ⟨[bareItem "novel" "Book"]⟩, none⟩

theorem toRaised_delivery :
    delivery.toRaised ((Forest.empty libraryTypes).changed opening).model =
      .ok ⟨.commands [], shelving⟩ := by
  have hread : (⟨[bareItem "novel" "Book"]⟩ : Chunk).toSubtree libraryTypes opened.forest.nodes =
      .ok novel :=
    Chunk.toSubtree_eq_ok.2 ⟨[novel.root], by decide +kernel, by decide +kernel, by decide +kernel,
      Subtree.single_of_leaf rfl⟩
  refine EventPart.toRaised_eq_ok.2 ⟨shelving, ?_, rfl⟩
  refine Event.toChange_eq_ok.2 ⟨.addChild ⟨⟨"city"⟩, ⟨2⟩, 0⟩ novel, ?_, rfl, rfl⟩
  exact bind_eq_ok.2 ⟨_, rfl, bind_eq_ok.2 ⟨novel, hread, rfl⟩⟩

/-- An event without parts. -/
def sighing (n : UInt64) : Message := .event ⟨n, .composite [] none⟩

/-- The library is announced, and announced once more. Somebody agrees. Then there is nothing to be
    told for a moment, and at last the book comes. -/
def diary : List Message :=
  [.event ⟨0, .single announcement⟩, .event ⟨0, .single announcement⟩,
    .commandResponse ⟨⟨"first"⟩, none⟩, sighing 1, .event ⟨2, .single delivery⟩]

/-- What becomes of the five messages. -/
def courses : List Fate :=
  [.followed [⟨.commands [], opening⟩], .seen, .passed, .followed [],
    .followed [⟨.commands [], shelving⟩]]

theorem exists_plays_diary : ∃ r,
    (Replayer.start libraryTypes ⟨"client"⟩ true).Plays diary courses r ∧
      r.forest.partitions = [⟨"city"⟩] ∧ r.forest.nodes.size = 2 := by
  have hopened : Forest.Action.applyAll EventPart.toRaised [announcement] (.empty libraryTypes) =
      .ok [⟨.commands [], opening⟩] ((Forest.empty libraryTypes).changed opening) := by
    rw [Forest.Action.applyAll, Forest.Action.applyParts_cons_of_ok reads_events
      (Forest.wellFormed_empty libraryTypes) toRaised_announcement]
    rfl
  have hwell : ((Forest.empty libraryTypes).changed opening).WellFormed :=
    (Forest.Follows.of_applyAll reads_events (Forest.wellFormed_empty libraryTypes)
      hopened).wellFormed (Forest.wellFormed_empty libraryTypes)
  have hstocked : Forest.Action.applyAll EventPart.toRaised [delivery]
      ((Forest.empty libraryTypes).changed opening) = .ok [⟨.commands [], shelving⟩]
        (((Forest.empty libraryTypes).changed opening).changed shelving) := by
    rw [Forest.Action.applyAll, Forest.Action.applyParts_cons_of_ok reads_events hwell
      toRaised_delivery]
    rfl
  -- The events are received as their parts are made.
  have hfirst := @Follower.Action.receiveEvent_of_ok (.empty libraryTypes) (some ⟨none⟩) _ _
    ⟨0, .single announcement⟩ rfl hopened
  have hlast := @Follower.Action.receiveEvent_of_ok
    ⟨(Forest.empty libraryTypes).changed opening, .empty, []⟩ (some ⟨some 2⟩) _ _
    ⟨2, .single delivery⟩ rfl hstocked
  refine ⟨_, .cons (.followed ?_ hfirst) (.cons (.seen ⟨_, rfl, rfl⟩) (.cons (.passed ?_ ?_)
    (.cons (.followed ?_ rfl) (.cons (.followed ?_ hlast) (.nil _))))), rfl, ?_⟩
  · rintro ⟨_, ⟨⟩, ⟨⟩⟩
  · exact fun _ => Message.noConfusion
  · exact fun _ => Message.noConfusion
  · rintro ⟨_, ⟨⟩, ⟨⟩⟩
  · rintro ⟨_, ⟨⟩, ⟨⟩⟩
  · decide +kernel

end Examples

end DeltaForest
