import DeltaForest.Proofs.Publishing
import DeltaForest.Proofs.Replication

/-!
# What a site sends out

At a site changes are committed, and commands and events are received, in any order and with or
without success. Somebody publishes what is done there as commands, and somebody replicates it as
events. What they send out is what has been done, and no more (`Site.Reachable.outbound`):

* every commit that succeeds is sent out as one command, and nothing else is; no two commands have
  the same id;
* every change that has been made, and is not given up again, is sent out as one event, and the
  events are numbered from zero;
* the origins of an event are those of the change: the command that was received, or the origins of
  the event that was received, or a command made up for a change that was made here.

Numbers and ids go on from one change to the next, and so does what is sent out; `Counted` is the
relation that both have in common.
-/

namespace DeltaForest

open Protocol

variable {types : TypeRegistry}

/-! ## Counting -/

/-- Two lists of the same length are related element by element, under numbers that go up. -/
inductive Counted {α β : Type} (R : UInt64 → α → β → Prop) : UInt64 → List α → List β → Prop
  | nil (n : UInt64) : Counted R n [] []
  | cons {n : UInt64} {a : α} {b : β} {as : List α} {bs : List β} :
    R n a b → Counted R (n + 1) as bs → Counted R n (a :: as) (b :: bs)

namespace Counted

variable {α β γ : Type} {R : UInt64 → α → β → Prop} {n : UInt64} {as as' : List α} {bs bs' : List β}

theorem append (h : Counted R n as bs) (h' : Counted R (n + .ofNat as.length) as' bs') :
    Counted R n (as ++ as') (bs ++ bs') := by
  induction h with
  | nil n =>
    rw [List.length_nil, Tells.add_zero] at h'
    exact h'
  | cons hfirst _ ih =>
    rw [List.length_cons, Tells.add_succ] at h'
    exact .cons hfirst (ih h')

theorem forall₂ {S : α → β → Prop} (h : Counted R n as bs) (hS : ∀ n a b, R n a b → S a b) :
    List.Forall₂ S as bs := by
  induction h with
  | nil => exact .nil
  | cons hfirst _ ih => exact .cons (hS _ _ _ hfirst) ih

/-- What depends on the numbers alone. -/
theorem map_eq {f : β → γ} {g : UInt64 → γ} (h : Counted R n as bs)
    (hR : ∀ n a b, R n a b → f b = g n) :
    bs.map f = (List.range as.length).map fun i => g (n + .ofNat i) := by
  induction h with
  | nil => rfl
  | cons hfirst _ ih =>
    rw [List.map_cons, hR _ _ _ hfirst, ih, List.length_cons, List.range_succ_eq_map, List.map_cons,
      List.map_map, Tells.add_zero]
    simp only [Function.comp_def, Nat.succ_eq_add_one, Tells.add_succ]

end Counted

/-! ## Tasks -/

/-- What is done at a site, or comes in. -/
inductive Task
  | work (work : Work)
  /-- An event is received by somebody who knows of earlier ones what `tracker` says. -/
  | follow (tracker : Option Tracker) (message : SequencedEvent)

namespace Task

/-- The site after a task, successful or not. -/
def after (site : Site) : Task → Site
  | work w => w.after site
  | follow tracker message => (Follower.after ⟨site, tracker⟩ message).site

/-- The changes that a task makes and tells of. -/
def raised (site : Site) : Task → List Raised
  | work w => w.raised site
  | follow tracker message =>
    match Follower.Action.receiveEvent message ⟨site, tracker⟩ with
    | .ok all _ => all
    | .error _ _ => []

/-- The subtrees that a planner has put together. -/
def incoming (site : Site) : Task → List Subtree
  | work w => w.incoming site
  | follow .. => []

/-- What a task makes if it is not in vain: a commit makes one change here; a command or an event
    makes one change a part, and the part says where the change stems from. -/
def Causes : Task → List Raised → Prop
  | work (.commit _), all => ∃ n c, all = [⟨.here n, c⟩]
  | work (.receive participation message), all =>
    List.Forall₂ (fun part raised => raised.origin = .commands [⟨participation, part.id⟩])
      message.parts all
  | follow _ message, all =>
    List.Forall₂ (fun part raised => raised.origin = .commands part.origins)
      message.event.parts all

end Task

namespace Site

/-- The site after tasks, one after the other. -/
def afterTasks (site : Site) (tasks : List Task) : Site := tasks.foldl Task.after site

/-- The changes that tasks make, task by task. -/
def history (site : Site) : List Task → List (List Raised)
  | [] => []
  | task :: tasks => task.raised site :: (task.after site).history tasks

/-- All that planners put together on the way can be had. -/
def AdmitsTasks (site : Site) : List Task → Prop
  | [] => True
  | task :: tasks =>
    (∀ tree ∈ task.incoming site, tree.Obtainable) ∧ (task.after site).AdmitsTasks tasks

end Site

/-- What is made of the parts of a message stems from them, part by part. -/
theorem Forest.Action.forall₂_applyParts {α : Type} {toRaised : Model → α → Except Fault Raised}
    {R : α → Raised → Prop} (hR : ∀ m part raised, toRaised m part = .ok raised → R part raised)
    {parts : List α} {f f' : Forest} {all : List Raised}
    (h : applyParts toRaised parts f = .ok all f') : List.Forall₂ R parts all := by
  induction parts generalizing f all with
  | nil =>
    cases h
    exact .nil
  | cons part parts ih =>
    cases hpart : toRaised f.model part with
    | error fault => rw [applyParts_cons_of_error hpart] at h; cases h
    | ok raised =>
      simp only [applyParts, ask, hpart, bind, EStateM.bind] at h
      -- Each part is made in the forest that the ones before it have left.
      cases happly : apply raised.change f with
      | error fault f'' => simp [happly] at h
      | ok u f'' =>
        cases hrest : applyParts toRaised parts f'' with
        | error fault f''' => simp [happly, hrest] at h
        | ok rest f''' =>
          obtain ⟨rfl, rfl⟩ : raised :: rest = all ∧ f''' = f' := by
            simpa [happly, hrest, pure, EStateM.pure] using h
          exact .cons (hR _ _ _ hpart) (ih hrest)

theorem Forest.Action.forall₂_applyAll {α : Type} {toRaised : Model → α → Except Fault Raised}
    {R : α → Raised → Prop} (hR : ∀ m part raised, toRaised m part = .ok raised → R part raised)
    {parts : List α} {f f' : Forest} {all : List Raised}
    (h : applyAll toRaised parts f = .ok all f') : List.Forall₂ R parts all := by
  rw [applyAll] at h
  split at h
  · next hparts =>
    cases h
    exact forall₂_applyParts hR hparts
  · cases h

/-- A command that is accepted is made part by part. -/
theorem Site.Action.exists_of_receiveCommand {participation : ParticipationId}
    {message : CommandMessage} {site site' : Site} {all : List Raised}
    (h : receiveCommand participation message site = .ok all site') :
    ∃ f', Forest.Action.applyAll (CommandPart.toRaised participation) message.parts site.forest =
      .ok all f' := by
  cases hall : Forest.Action.applyAll (CommandPart.toRaised participation) message.parts
    site.forest with
  | error fault f' => rw [receiveCommand_of_error hall] at h; cases h
  | ok all' f' =>
    rw [receiveCommand_of_ok hall] at h
    -- Telling comes last, so whatever is handed back has been made.
    cases hemit : all'.forM emit { site with forest := f' } with
    | error fault site'' => rw [bind_of_error hemit] at h; cases h
    | ok u site'' =>
      rw [bind_of_ok hemit] at h
      cases h
      exact ⟨f', rfl⟩

/-- An event that is accepted is made part by part, unless it is dropped. -/
theorem Follower.Action.exists_of_receiveEvent {message : SequencedEvent} {site : Site}
    {tracker : Option Tracker} {all : List Raised} {later : Follower}
    (h : receiveEvent message ⟨site, tracker⟩ = .ok all later) :
    all = [] ∨ ∃ f', Forest.Action.applyAll EventPart.toRaised message.event.parts site.forest =
      .ok all f' := by
  rcases judge_eq_or message.number ⟨site, tracker⟩ with ⟨_ | _, hjudge⟩ | ⟨fault, hjudge⟩
  · cases hall : Forest.Action.applyAll EventPart.toRaised message.event.parts site.forest with
    | error fault f' => rw [receiveEvent_of_error hjudge hall] at h; cases h
    | ok all' f' =>
      rw [receiveEvent_of_ok hjudge hall] at h
      cases hemit : all'.forM Site.Action.emit { site with forest := f' } with
      | error fault site' => rw [bind_of_error (onSite_of_error hemit)] at h; cases h
      | ok u site' =>
        rw [bind_of_ok (onSite_of_ok hemit)] at h
        cases h
        exact .inr ⟨f', rfl⟩
  · rw [receiveEvent_of_duplicate hjudge] at h
    cases h
    exact .inl rfl
  · rw [receiveEvent_of_gap hjudge] at h
    cases h

namespace Task

variable {site : Site} {task : Task}

/-- A task makes what it is about, or nothing. -/
theorem causes_raised (task : Task) (site : Site) :
    task.raised site = [] ∨ task.Causes (task.raised site) := by
  cases task with
  | work w =>
    cases w with
    | commit planner => exact Work.raised_commit planner site
    | receive participation message =>
      rw [raised, Work.raised]
      split
      · next all site' hreceive =>
        obtain ⟨f', hall⟩ := Site.Action.exists_of_receiveCommand hreceive
        refine .inr (Forest.Action.forall₂_applyAll (fun m part raised h => ?_) hall)
        obtain ⟨c, -, rfl⟩ := CommandPart.toRaised_eq_ok.1 h
        rfl
      · exact .inl rfl
  | follow tracker message =>
    rw [raised]
    split
    · next all later hreceive =>
      rcases Follower.Action.exists_of_receiveEvent hreceive with hnone | ⟨f', hall⟩
      · exact .inl hnone
      · -- The origins of what is raised are those that the event names.
        refine .inr (Forest.Action.forall₂_applyAll (fun m part raised h => ?_) hall)
        obtain ⟨c, -, rfl⟩ := EventPart.toRaised_eq_ok.1 h
        rfl
    · exact .inl rfl

/-- A task makes changes and tells all subscribers of them, or does nothing. -/
theorem advances (hl : types.Lawful) (hf : site.forest.Proper types) (hw : site.bus.Willing)
    (htree : ∀ tree ∈ task.incoming site, tree.IsTree) :
    site.Advances (task.after site) (task.raised site) := by
  cases task with
  | work w => exact Work.advances hl hf hw htree
  | follow tracker message =>
    rw [after, raised, Follower.after]
    rcases Follower.Action.judge_eq_or message.number ⟨site, tracker⟩ with
      ⟨_ | _, hjudge⟩ | ⟨fault, hjudge⟩
    · cases hall : Forest.Action.applyAll EventPart.toRaised message.event.parts site.forest with
      | error fault f' =>
        obtain rfl := Forest.Action.applyAll_error reads_events hf.wellFormed hall
        rw [Follower.Action.receiveEvent_of_error hjudge hall]
        exact Site.advances_self hw
      | ok all f' =>
        obtain ⟨site', hemit, -, hadvances⟩ := Site.exists_told hl hf hw
          (.of_applyAll reads_events hf.wellFormed hall)
        rw [Follower.Action.receiveEvent_of_ok hjudge hall,
          bind_of_ok (Follower.Action.onSite_of_ok hemit)]
        exact hadvances
    · rw [Follower.Action.receiveEvent_of_duplicate hjudge]
      exact Site.advances_self hw
    · rw [Follower.Action.receiveEvent_of_gap hjudge]
      exact Site.advances_self hw

end Task

/-! ## What is sent out -/

/-- A command with the next id of a source asks for a change. -/
def Publishes (types : TypeRegistry) (stem : String) (n : UInt64) (raised : Raised)
    (part : CommandPart) : Prop :=
  part.id = (CommandIds.take ⟨stem, ⟨n⟩⟩).1 ∧
    Command.ofChange types raised.change = .ok part.command

/-- The origins with which a change is told of: its own, or a command made up for a change that was
    made here. -/
def Origin.Credits (participation : ParticipationId) : Origin → List CommandSource → Prop
  | .commands sources, origins => origins = sources
  | .here _, origins => ∃ id, origins = [⟨participation, id⟩]

/-- An event with a number tells of a change. -/
def Reports (types : TypeRegistry) (participation : ParticipationId) (n : UInt64) (raised : Raised)
    (e : SequencedEvent) : Prop :=
  ∃ part, e = ⟨n, .single part⟩ ∧ Event.ofChange types raised.change = .ok part.event ∧
    raised.origin.Credits participation part.origins

namespace Subscriber

variable {model : Model} {all : List Raised}

/-- What a publisher tells of changes: a command for each one that was made here. -/
theorem counted_publisher (stem : String) (n : UInt64)
    (h : ∀ raised ∈ all, raised.change.Tellable model.types) :
    (publisher ⟨stem, ⟨n⟩⟩).nextAll model all =
        publisher ⟨stem, ⟨n + .ofNat (all.filter (·.origin.isHere)).length⟩⟩ ∧
      Counted (Publishes model.types stem) n (all.filter (·.origin.isHere))
        (((publisher ⟨stem, ⟨n⟩⟩).noticesAll model all).filterMap Notice.command?) := by
  induction all generalizing n with
  | nil => exact ⟨by rw [List.filter_nil, List.length_nil, Tells.add_zero]; rfl, .nil n⟩
  | cons raised all ih =>
    obtain ⟨hfirst, hrest⟩ := List.forall_mem_cons.1 h
    obtain ⟨command, hcommand⟩ := hfirst.command
    rw [nextAll, List.foldl_cons, noticesAll]
    cases hhere : raised.origin.isHere with
    -- What stems from elsewhere is not told, and takes no number.
    | false =>
      have hnotice : (publisher ⟨stem, ⟨n⟩⟩).notice model raised =
          .ok (none, publisher ⟨stem, ⟨n⟩⟩) := by
        rw [notice, hhere]
        rfl
      rw [List.filter_cons, hhere, if_neg Bool.false_ne_true, next, notices, hnotice]
      exact ih n hrest
    | true =>
      have hnotice : (publisher ⟨stem, ⟨n⟩⟩).notice model raised =
          .ok (some (.command ⟨(CommandIds.take ⟨stem, ⟨n⟩⟩).1, command, none⟩),
            publisher ⟨stem, ⟨n + 1⟩⟩) := by
        rw [notice, hhere, if_pos rfl, hcommand]
        rfl
      obtain ⟨hnext, hcounted⟩ := ih (n + 1) hrest
      rw [List.filter_cons, hhere, if_pos rfl, next, notices, hnotice, List.length_cons,
        Tells.add_succ]
      exact ⟨hnext, .cons (show Publishes _ _ _ _ ⟨_, command, none⟩ from ⟨rfl, hcommand⟩) hcounted⟩

/-- What a replicator tells of changes: an event for each one. -/
theorem counted_replicator (participation : ParticipationId) (n : UInt64) (ids : CommandIds)
    (h : ∀ raised ∈ all, raised.change.Tellable model.types) :
    ∃ ids', (replicator participation ⟨n⟩ ids).nextAll model all =
        replicator participation ⟨n + .ofNat all.length⟩ ids' ∧
      Counted (Reports model.types participation) n all
        (((replicator participation ⟨n⟩ ids).noticesAll model all).filterMap Notice.event?) := by
  induction all generalizing n ids with
  | nil => exact ⟨ids, by rw [List.length_nil, Tells.add_zero]; rfl, .nil n⟩
  | cons raised all ih =>
    obtain ⟨hfirst, hrest⟩ := List.forall_mem_cons.1 h
    obtain ⟨event, hevent⟩ := hfirst.event
    -- Whatever its origin a change is told, and takes a number.
    obtain ⟨origins, ids', hcredits, hnotice⟩ : ∃ origins ids',
        raised.origin.Credits participation origins ∧
        (replicator participation ⟨n⟩ ids).notice model raised =
          .ok (some (.event ⟨n, .single ⟨origins, event, none⟩⟩),
            replicator participation ⟨n + 1⟩ ids') := by
      rw [notice, Raised.toEvent, hevent]
      cases raised.origin with
      | commands sources => exact ⟨sources, ids, rfl, rfl⟩
      | here number => exact ⟨_, _, ⟨_, rfl⟩, rfl⟩
    obtain ⟨ids'', hnext, hcounted⟩ := ih (n + 1) ids' hrest
    rw [nextAll, List.foldl_cons, noticesAll, next, notices, hnotice, List.length_cons,
      Tells.add_succ]
    exact ⟨ids'', hnext, .cons ⟨_, rfl, hevent, hcredits⟩ hcounted⟩

end Subscriber

/-- Commands and events are what there is to be sent out of some changes. -/
structure SentOut (types : TypeRegistry) (participation : ParticipationId) (all : List Raised)
    (parts : List CommandPart) (es : List SequencedEvent) : Prop where
  /-- Every change that was made here is asked for by one command, in order. -/
  commands : List.Forall₂
    (fun raised part => Command.ofChange types raised.change = .ok part.command)
    (all.filter (·.origin.isHere)) parts
  distinct : (parts.map (·.id)).Nodup
  /-- Every change is told of by one event, in order, with the right origins. -/
  events : List.Forall₂
    (fun raised e => ∃ part, e.event = .single part ∧
      Event.ofChange types raised.change = .ok part.event ∧
        raised.origin.Credits participation part.origins) all es
  numbers : es.map (·.number.toNat) = List.range all.length

/-- What is counted from zero, and does not come to the end of the numbers, is as it should be. -/
theorem SentOut.of_counted {participation : ParticipationId} {stem : String} {all : List Raised}
    {parts : List CommandPart} {es : List SequencedEvent}
    (hparts : Counted (Publishes types stem) 0 (all.filter (·.origin.isHere)) parts)
    (hes : Counted (Reports types participation) 0 all es) (hroom : all.length < 2 ^ 64) :
    SentOut types participation all parts es where
  commands := hparts.forall₂ fun _ _ _ h => h.2
  distinct := by
    rw [hparts.map_eq fun _ _ _ h => h.1]
    refine List.nodup_range.map_on fun i hi j hj heq => ?_
    have hlength : (all.filter (·.origin.isHere)).length < 2 ^ 64 :=
      Nat.lt_of_le_of_lt (List.length_filter_le ..) hroom
    have hi := Nat.lt_trans (List.mem_range.1 hi) hlength
    have hj := Nat.lt_trans (List.mem_range.1 hj) hlength
    -- The ids have the stem in common, so the numbers behind it are the same.
    have htext := (String.append_right_inj _).1 (congrArg CommandId.text heq)
    have hnumber := congrArg UInt64.toNat (Text.toString_injective htext)
    rwa [UInt64.zero_add, UInt64.zero_add, UInt64.toNat_ofNat', UInt64.toNat_ofNat',
      Nat.mod_eq_of_lt hi, Nat.mod_eq_of_lt hj] at hnumber
  events := hes.forall₂ fun _ _ _ ⟨part, he, hevent, hcredits⟩ =>
    ⟨part, by rw [he], hevent, hcredits⟩
  numbers := by
    rw [hes.map_eq (g := UInt64.toNat) fun _ _ _ ⟨_, he, _⟩ => by rw [he]]
    refine (List.map_congr_left fun i hi => ?_).trans (List.map_id _)
    rw [UInt64.zero_add, UInt64.toNat_ofNat', id,
      Nat.mod_eq_of_lt (Nat.lt_trans (List.mem_range.1 hi) hroom)]

namespace Site

variable {site : Site} {participation : ParticipationId} {stem : String} {n k : UInt64}
  {ids : CommandIds} {outbox stream : Nat}

/-- A publisher and a replicator tell of what tasks make, each in its own way. -/
theorem exists_counted (hl : types.Lawful) (hf : site.forest.Proper types)
    (hw : site.bus.Willing) (hpublisher : site.bus.Has outbox (.publisher ⟨stem, ⟨n⟩⟩))
    (hreplicator : site.bus.Has stream (.replicator participation ⟨k⟩ ids))
    (tasks : List Task) (hadmits : site.AdmitsTasks tasks) :
    ∃ new, (site.afterTasks tasks).log = site.log ++ new ∧
      site.forest.Follows (site.afterTasks tasks).forest
        ((site.history tasks).flatten.map (·.change)) ∧
      Counted (Publishes types stem) n ((site.history tasks).flatten.filter (·.origin.isHere))
        (Delivery.commandsOf outbox new) ∧
      Counted (Reports types participation) k (site.history tasks).flatten
        (Delivery.eventsOf stream new) := by
  induction tasks generalizing site n k ids with
  | nil => exact ⟨[], (List.append_nil _).symm, .same _, .nil n, .nil k⟩
  | cons task tasks ih =>
    obtain ⟨hfirst, hrest⟩ := hadmits
    obtain ⟨hfollows, hwilling, new, hlog, htold⟩ :=
      Task.advances hl hf hw fun tree ht => (hfirst tree ht).isTree
    obtain ⟨hhasPublisher, hcommands⟩ := htold outbox _ hpublisher
    obtain ⟨hhasReplicator, hevents⟩ := htold stream _ hreplicator
    have hproper := hfollows.proper hf
    have hmodel : (task.after site).forest.model.types = types := hproper.types
    have htellable := hf.tellable hl hfollows.accepts hfollows.trees
    rw [List.forall_mem_map, ← hmodel] at htellable
    -- Both go on from where they have come to with the changes of the first task.
    obtain ⟨hnextPublisher, hpublished⟩ := Subscriber.counted_publisher stem n htellable
    obtain ⟨ids', hnextReplicator, hreported⟩ :=
      Subscriber.counted_replicator participation k ids htellable
    rw [hnextPublisher] at hhasPublisher
    rw [hnextReplicator] at hhasReplicator
    rw [← hcommands, hmodel] at hpublished
    rw [← hevents, hmodel] at hreported
    obtain ⟨new', hlog', hfollows', hpublished', hreported'⟩ :=
      ih hproper hwilling hhasPublisher hhasReplicator hrest
    rw [history, List.flatten_cons, List.map_append, List.filter_append]
    refine ⟨new ++ new', ?_, hfollows.trans hfollows', ?_, ?_⟩
    · exact hlog'.trans (by rw [hlog, List.append_assoc])
    · rw [Delivery.commandsOf_append]
      exact hpublished.append hpublished'
    · rw [Delivery.eventsOf_append]
      exact hreported.append hreported'

theorem forall₂_history (tasks : List Task) :
    List.Forall₂ (fun task all => all = [] ∨ task.Causes all) tasks (site.history tasks) := by
  induction tasks generalizing site with
  | nil => exact .nil
  | cons task tasks ih => exact .cons (task.causes_raised site) ih

/-- Whatever is done at a site, or comes in: each task makes what it is about or nothing, all of it
    is made one after the other and nothing else, and exactly that is sent out. -/
theorem Reachable.outbound {languages : List Language}
    (htypes : TypeRegistry.registerAll .empty languages = .ok types)
    {past : List Checkpoint} {made : List Change} (h : Site.Reachable types site past made)
    (hwilling : site.bus.Willing) {listener listener' : Listener}
    (hpublisher : ⟨outbox, .publisher ⟨stem, ⟨0⟩⟩, listener⟩ ∈ site.bus.subscriptions)
    (hreplicator :
      ⟨stream, .replicator participation ⟨0⟩ ids, listener'⟩ ∈ site.bus.subscriptions)
    (tasks : List Task) (hadmits : site.AdmitsTasks tasks)
    (hroom : (site.history tasks).flatten.length < 2 ^ 64) :
    List.Forall₂ (fun task all => all = [] ∨ task.Causes all) tasks (site.history tasks) ∧
      site.forest.Follows (site.afterTasks tasks).forest
        ((site.history tasks).flatten.map (·.change)) ∧
      SentOut types participation (site.history tasks).flatten
        (Delivery.commandsOf outbox ((site.afterTasks tasks).log.drop site.log.length))
        (Delivery.eventsOf stream ((site.afterTasks tasks).log.drop site.log.length)) := by
  obtain ⟨new, hlog, hfollows, hpublished, hreported⟩ :=
    exists_counted (TypeRegistry.lawful_of_registerAll htypes) h.proper hwilling
      (h.distinct.has hpublisher) (h.distinct.has hreplicator) tasks hadmits
  rw [hlog, List.drop_left]
  exact ⟨forall₂_history tasks, hfollows, .of_counted hpublished hreported hroom⟩

end Site

/-! ## A library that is published and replicated -/

namespace Examples

/-- A site that publishes what is committed and replicates everything. -/
def sending : Site := relaying publishing

/-- The library is commented on, somebody else relates the book to another one, and the same is
    heard of once more, as an event without origins. -/
def busy : List Task :=
  [.work (.commit fun _ => .ok remarking),
    .work (.receive ⟨"peer"⟩ (.single ⟨⟨"first"⟩,
      .addEntry ⟨⟨"novel"⟩, ⟨"library", "1", "Book-related"⟩, 0⟩ ⟨none, some "Emma"⟩, none⟩)),
    .follow none ⟨7, .single ⟨[],
      .entryAdded ⟨⟨"novel"⟩, ⟨"library", "1", "Book-related"⟩, 0⟩ ⟨none, some "Emma"⟩, none⟩⟩]

/-- All three are made. One of them is sent out as a command, and all as events. -/
theorem outbound_busy :
    (sending.history busy).map List.length = [1, 1, 1] ∧
      ((sending.history busy).flatten.filter (·.origin.isHere)).length = 1 ∧
      List.Forall₂ (fun task all => all = [] ∨ task.Causes all) busy (sending.history busy) ∧
      sending.forest.Follows (sending.afterTasks busy).forest
        ((sending.history busy).flatten.map (·.change)) ∧
      SentOut libraryTypes ⟨"repository"⟩ (sending.history busy).flatten
        (Delivery.commandsOf 0 ((sending.afterTasks busy).log.drop sending.log.length))
        (Delivery.eventsOf 1 ((sending.afterTasks busy).log.drop sending.log.length)) := by
  have hwilling : sending.bus.Willing := by
    intro s hs
    rcases List.mem_pair.1 hs with rfl | rfl <;> exact fun _ => rfl
  have hadmits : sending.AdmitsTasks busy :=
    ⟨List.forall_mem_singleton.2 (obtainable_of_leaf rfl), List.forall_mem_nil _,
      List.forall_mem_nil _, trivial⟩
  -- The three tasks raise one change each, of which one is from here.
  have hroom : (sending.history busy).flatten.length < 2 ^ 64 := by decide +kernel
  exact ⟨by decide +kernel, by decide +kernel,
    Site.Reachable.outbound registerAll_library (reachable_relaying reachable_publishing) hwilling
      List.mem_cons_self (List.mem_cons_of_mem _ List.mem_cons_self) busy hadmits hroom⟩

end Examples

end DeltaForest
