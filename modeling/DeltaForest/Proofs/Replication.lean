import DeltaForest.Proofs.Filled
import DeltaForest.Proofs.Works
import Mathlib.Algebra.Group.Nat.Defs

/-!
# Events delivered in any order

A site turns everything that is done there into numbered events, and a follower that has started
from the same nodes receives them: some of them more than once, some never, in any order. It makes
the next change whenever the event for it comes, drops what it has seen, and refuses what comes too
early.

* `Tells`: a list of events tells of changes, one event a change, and the numbers go up by one;
* `Site.exists_told_of`: what a replicator tells of a run of works tells of the changes that were
  made;
* `Follower.Stands`: a follower has made the first `k` changes, as they arrive, and waits for the
  next one; every delivery takes it from there to `k + 1` or leaves it where it is
  (`Follower.Stands.delivered`);
* `Site.Reachable.replicated`: whatever is delivered, the follower is where the site was after as
  many changes as deliveries have been accepted, up to empty lists.

The follower stores the very same nodes if and only if no change brings an empty list, as these are
left out of messages (`Filled`).
-/

namespace DeltaForest

open Protocol

/-- The event that is told, if one is. -/
def Notice.event? : Notice → Option SequencedEvent
  | .event e => some e
  | _ => none

/-- The events that have been handed over under an id. -/
def Delivery.eventsOf (id : Nat) (deliveries : List Delivery) : List SequencedEvent :=
  (noticesOf id deliveries).filterMap Notice.event?

theorem Delivery.eventsOf_append {id : Nat} (ds ds' : List Delivery) :
    eventsOf id (ds ++ ds') = eventsOf id ds ++ eventsOf id ds' := by
  rw [eventsOf, noticesOf_append, List.filterMap_append]
  rfl

variable {types : TypeRegistry} {n : UInt64} {cs : List Change} {es : List SequencedEvent}

/-- Events tell of changes, one event a change, and are numbered one after the other. -/
inductive Tells (types : TypeRegistry) : UInt64 → List Change → List SequencedEvent → Prop
  | nil (n : UInt64) : Tells types n [] []
  | cons {n : UInt64} {c : Change} {cs : List Change} {part : EventPart}
    {es : List SequencedEvent} :
      Event.ofChange types c = .ok part.event → Tells types (n + 1) cs es →
        Tells types n (c :: cs) (⟨n, .single part⟩ :: es)

namespace Tells

theorem length_eq (h : Tells types n cs es) : es.length = cs.length := by
  induction h with
  | nil => rfl
  | cons _ _ ih => exact congrArg (· + 1) ih

theorem add_zero (n : UInt64) : n + .ofNat 0 = n := UInt64.add_zero n

theorem add_succ (n : UInt64) (i : Nat) : n + .ofNat (i + 1) = n + 1 + .ofNat i := by
  rw [UInt64.ofNat_add, UInt64.add_comm (.ofNat i), ← UInt64.add_assoc]
  rfl

theorem append {cs' : List Change} {es' : List SequencedEvent} (h : Tells types n cs es)
    (h' : Tells types (n + .ofNat cs.length) cs' es') : Tells types n (cs ++ cs') (es ++ es') := by
  induction h with
  | nil n =>
    rw [List.length_nil, add_zero] at h'
    exact h'
  | cons hevent _ ih =>
    rw [List.length_cons, add_succ] at h'
    exact .cons hevent (ih h')

/-- What an event tells. -/
theorem lookup (h : Tells types n cs es) {i : Nat} {e : SequencedEvent} (he : es[i]? = some e) :
    ∃ c part, cs[i]? = some c ∧ Event.ofChange types c = .ok part.event ∧
      e = ⟨n + .ofNat i, .single part⟩ := by
  induction h generalizing i with
  | nil => cases he
  | @cons n c cs part es hevent htells ih =>
    cases i with
    | zero =>
      obtain rfl := Option.some.inj he
      exact ⟨c, part, rfl, hevent, by rw [add_zero]⟩
    | succ i =>
      obtain ⟨c', part', hc', hevent', rfl⟩ := ih he
      exact ⟨c', part', hc', hevent', by rw [add_succ]⟩

end Tells

/-! ## The site -/

namespace Subscriber

variable (model : Model) (participation : ParticipationId) (n : UInt64) (ids : CommandIds)

/-- Every change is told as the event with the next number. -/
theorem exists_replicated {raised : Raised} {event : Event}
    (h : Event.ofChange model.types raised.change = .ok event) :
    ∃ part ids', (replicator participation ⟨n⟩ ids).notice model raised =
      .ok (some (.event ⟨n, .single part⟩), replicator participation ⟨n + 1⟩ ids') ∧
        part.event = event := by
  rw [notice, Raised.toEvent, h]
  exact ⟨_, _, rfl, rfl⟩

/-- What a replicator tells of changes tells of all of them. -/
theorem tells_noticesAll {all : List Raised}
    (h : ∀ raised ∈ all, raised.change.Tellable model.types) :
    ∃ ids', (replicator participation ⟨n⟩ ids).nextAll model all =
        replicator participation ⟨n + .ofNat all.length⟩ ids' ∧
      Tells model.types n (all.map (·.change))
        (((replicator participation ⟨n⟩ ids).noticesAll model all).filterMap Notice.event?) := by
  -- The replicator goes on with the next number after each change.
  induction all generalizing n ids with
  | nil => exact ⟨ids, by rw [List.length_nil, Tells.add_zero]; rfl, .nil n⟩
  | cons raised all ih =>
    obtain ⟨hfirst, hrest⟩ := List.forall_mem_cons.1 h
    obtain ⟨event, hevent⟩ := hfirst.event
    obtain ⟨part, ids', hnotice, rfl⟩ := exists_replicated model participation n ids hevent
    obtain ⟨ids'', hnext, htells⟩ := ih (n + 1) ids' hrest
    refine ⟨ids'', ?_, ?_⟩
    · rw [nextAll, List.foldl_cons, next, hnotice, List.length_cons, Tells.add_succ]
      exact hnext
    · rw [noticesAll, notices, next, hnotice]
      exact .cons hevent htells

end Subscriber

variable {participation : ParticipationId} {ids : CommandIds} {id : Nat}

namespace Site

variable {site : Site}

/-- A replicator tells of all changes that works make. -/
theorem exists_told_of (hl : types.Lawful) (hf : site.forest.Proper types)
    (hw : site.bus.Willing) (hhas : site.bus.Has id (.replicator participation ⟨n⟩ ids))
    (works : List Work) (hadmits : site.Admits works) :
    ∃ new, (site.afterAll works).log = site.log ++ new ∧
      site.forest.Follows (site.afterAll works).forest ((site.raisedBy works).map (·.change)) ∧
      Tells types n ((site.raisedBy works).map (·.change)) (Delivery.eventsOf id new) := by
  -- The subscriber goes from piece of work to piece of work, and with it the number it gives next.
  induction works generalizing site n ids with
  | nil => exact ⟨[], (List.append_nil _).symm, .same _, .nil n⟩
  | cons work works ih =>
    obtain ⟨hfirst, hrest⟩ := hadmits
    obtain ⟨hfollows, hwilling, new, hlog, htold⟩ :=
      Work.advances hl hf hw fun tree ht => (hfirst tree ht).isTree
    obtain ⟨hhas', hnotices⟩ := htold id _ hhas
    have hproper := hfollows.proper hf
    have htellable := hf.tellable hl hfollows.accepts hfollows.trees
    rw [List.forall_mem_map, ← hproper.types] at htellable
    obtain ⟨ids', hnext, htells⟩ :=
      Subscriber.tells_noticesAll (work.after site).forest.model participation n ids htellable
    rw [hnext] at hhas'
    obtain ⟨new', hlog', hfollows', htells'⟩ := ih hproper hwilling hhas' hrest
    -- What was delivered is read off the model before the works that follow.
    rw [← hnotices] at htells
    change Tells (work.after site).forest.types n _ (Delivery.eventsOf id new) at htells
    rw [hproper.types] at htells
    rw [raisedBy, List.map_append]
    refine ⟨new ++ new', ?_, hfollows.trans hfollows', ?_⟩
    · exact hlog'.trans (by rw [hlog, List.append_assoc])
    · rw [Delivery.eventsOf_append]
      exact htells.append (by rwa [List.length_map])

end Site

/-! ## The follower -/

namespace Forest

variable {f : Forest} {c : Change} {k : Nat}

theorem Accepts.take (h : f.Accepts cs) (k : Nat) : f.Accepts (cs.take k) :=
  (accepts_append.1 ((List.take_append_drop k cs).symm ▸ h)).1

/-- Each of some changes fits what the ones before it have made. -/
theorem Accepts.lookup (h : f.Accepts cs) (hc : cs[k]? = some c) :
    (f.changedBy (cs.take k)).model.replan c = .ok c := by
  have hrest := (accepts_append.1 ((List.take_append_drop k cs).symm ▸ h)).2
  rw [List.drop_eq_getElem?_toList_append, hc] at hrest
  exact hrest.1

theorem changedBy_take_succ (hc : cs[k]? = some c) :
    f.changedBy (cs.take (k + 1)) = (f.changedBy (cs.take k)).changed c := by
  rw [List.take_add_one, hc, changedBy_append]
  rfl

end Forest

/-- Events that tell of changes which a forest accepts. There are fewer of them than numbers from
    the first one on. -/
structure Stream (types : TypeRegistry) (f : Forest) (n : UInt64) (cs : List Change)
    (es : List SequencedEvent) : Prop where
  proper : f.Proper types
  accepts : f.Accepts cs
  trees : Forest.BringsTrees cs
  tells : Tells types n cs es
  room : n.toNat + cs.length < 2 ^ 64

namespace Stream

variable {f : Forest} {i k : Nat} {e : SequencedEvent}

theorem toNat_add (h : Stream types f n cs es) (hi : i ≤ cs.length) :
    (n + UInt64.ofNat i).toNat = n.toNat + i := by
  have hroom := h.room
  rw [UInt64.toNat_add, UInt64.toNat_ofNat', Nat.mod_eq_of_lt (by omega : i < 2 ^ 64),
    Nat.mod_eq_of_lt (by omega)]

/-- The number of an event. -/
theorem number_eq (h : Stream types f n cs es) (he : es[i]? = some e) :
    e.number.toNat = n.toNat + i := by
  obtain ⟨c, part, hc, -, rfl⟩ := h.tells.lookup he
  exact h.toNat_add (Nat.le_of_lt (List.getElem?_eq_some_iff.1 hc).1)

/-- Behind a number of the stream comes the next one. -/
theorem after_add (h : Stream types f n cs es) (hi : i < cs.length) :
    Tracker.after (n + .ofNat i) = n + .ofNat (i + 1) := by
  have hnext : n + UInt64.ofNat i + 1 = n + .ofNat (i + 1) := by
    rw [UInt64.ofNat_add, ← UInt64.add_assoc]
    rfl
  have hpos : n + UInt64.ofNat (i + 1) ≠ 0 := fun hzero => by
    have htoNat := h.toNat_add hi
    rw [hzero] at htoNat
    exact absurd htoNat (by simp)
  rw [Tracker.after, hnext, if_neg hpos]

/-- The first so many events tell of the first so many changes. -/
theorem length_eq (h : Stream types f n cs es) : es.length = cs.length := h.tells.length_eq

end Stream

namespace Follower

/-- The follower once an event has been delivered, accepted or not. -/
def after (follower : Follower) (e : SequencedEvent) : Follower :=
  stateAfter (Action.receiveEvent e follower)

/-- The follower once events have been delivered, one after the other. -/
def afterAll (follower : Follower) (deliveries : List SequencedEvent) : Follower :=
  deliveries.foldl after follower

/-- Whether an event that is delivered is accepted, so that changes are made. -/
def takes (follower : Follower) (e : SequencedEvent) : Bool :=
  match Action.receiveEvent e follower with
  | .ok (_ :: _) _ => true
  | _ => false

/-- How many of some deliveries are accepted. -/
def accepted (follower : Follower) : List SequencedEvent → Nat
  | [] => 0
  | e :: deliveries =>
    (if follower.takes e then 1 else 0) + (follower.after e).accepted deliveries

/-- A follower that has made the first `k` of some changes, as they arrive, and waits for the next
    one. -/
structure Stands (types : TypeRegistry) (f : Forest) (n : UInt64) (cs : List Change) (k : Nat)
    (follower : Follower) : Prop where
  bound : k ≤ cs.length
  proper : follower.site.forest.Proper types
  willing : follower.site.bus.Willing
  tracker : follower.tracker = some ⟨some (n + .ofNat k)⟩
  nodes : follower.site.forest.nodes = (f.changedBy ((cs.take k).map Change.travelled)).nodes
  alike : (f.changedBy (cs.take k)).Alike follower.site.forest

namespace Stands

variable {f : Forest} {i k : Nat} {e : SequencedEvent} {follower : Follower}

/-- A number is judged by its position in the stream. -/
theorem judge_eq (hs : Stream types f n cs es) (h : Stands types f n cs k follower)
    (he : es[i]? = some e) : Action.judge e.number follower =
      if i = k then .ok .accept follower
      else if i < k then .ok .duplicate follower
      else .error (.sequenceGap (n + .ofNat k) e.number) follower := by
  have hnumber := hs.number_eq he
  have hexpected := hs.toNat_add h.bound
  -- Numbers of 64 bits compare as positions do, because the stream does not run out of them.
  have heq : e.number = n + .ofNat k ↔ i = k := by
    rw [← UInt64.toNat_inj, hnumber, hexpected, Nat.add_left_cancel_iff]
  have hlt : e.number < n + .ofNat k ↔ i < k := by
    rw [UInt64.lt_iff_toNat_lt, hnumber, hexpected, Nat.add_lt_add_iff_left]
  rw [Action.judge, h.tracker]
  simp only [Tracker.check, heq, hlt]
  by_cases hk : i = k
  · simp only [hk, if_true]
  · by_cases hbefore : i < k
    · simp only [hk, hbefore, if_true, if_false]
    · simp only [hk, hbefore, if_false]

/-- The event for the next change is accepted, and the change is made. -/
theorem receive_next (hl : types.Lawful) (hs : Stream types f n cs es)
    (h : Stands types f n cs k follower) (he : es[k]? = some e) :
    ∃ raised later, Action.receiveEvent e follower = .ok [raised] later ∧
      Stands types f n cs (k + 1) later := by
  have hjudge := h.judge_eq hs he
  rw [if_pos rfl] at hjudge
  obtain ⟨c, part, hc, hevent, rfl⟩ := hs.tells.lookup he
  obtain ⟨hbound, hproper, hwilling, htracker, hnodes, halike⟩ := h
  obtain ⟨site, tracker⟩ := follower
  have htrees : Forest.BringsTrees (cs.take k) := fun c' hc' =>
    hs.trees c' (List.mem_of_mem_take hc')
  have hf := hs.proper.changedBy (hs.accepts.take k) htrees
  -- The change has been accepted by a forest that looks like that of the follower.
  obtain ⟨event, hevent', c', hc', hsame⟩ := halike.relay_event hl hf (hs.accepts.lookup hc)
    (hs.trees c (List.mem_of_getElem? hc))
  obtain rfl := Except.ok.inj (hevent'.symm.trans hevent)
  let raised : Raised := ⟨.commands part.origins, c'⟩
  have hpart : part.toRaised site.forest.model = .ok raised :=
    EventPart.toRaised_eq_ok.2 ⟨c', hc', rfl⟩
  obtain ⟨site', hreceive, hforest, hproper', hwilling'⟩ :=
    Site.exists_receiveEvent hl hproper hwilling hpart _ rfl hjudge
  have hlt : k < cs.length := (List.getElem?_eq_some_iff.1 hc).1
  refine ⟨raised, ⟨site', some (.behind (n + .ofNat k))⟩, ?_, hlt, ?_, ?_, ?_, ?_, ?_⟩
  · cases htracker
    exact hreceive
  · exact hproper'
  · exact hwilling'
  · rw [Tracker.behind, hs.after_add hlt]
  · rw [List.take_add_one, hc, List.map_append, Forest.changedBy_append, hforest]
    show c'.outcome site.forest.nodes = c.travelled.outcome _
    rw [← Change.outcome_oldPruned, hsame, Change.outcome_oldPruned, hnodes]
  · rw [Forest.changedBy_take_succ hc, hforest]
    exact halike.changed hsame

/-- An event for a change that has been made is dropped. -/
theorem receive_seen (hs : Stream types f n cs es) (h : Stands types f n cs k follower)
    (he : es[i]? = some e) (hi : i < k) : Action.receiveEvent e follower = .ok [] follower := by
  have hjudge := h.judge_eq hs he
  rw [if_neg (Nat.ne_of_lt hi), if_pos hi] at hjudge
  exact Action.receiveEvent_of_duplicate hjudge

/-- An event that comes too early is refused. -/
theorem receive_early (hs : Stream types f n cs es) (h : Stands types f n cs k follower)
    (he : es[i]? = some e) (hi : k < i) : Action.receiveEvent e follower =
      .error (.sequenceGap (n + .ofNat k) e.number) follower := by
  have hjudge := h.judge_eq hs he
  rw [if_neg (Nat.ne_of_gt hi), if_neg (Nat.not_lt_of_gt hi)] at hjudge
  exact Action.receiveEvent_of_gap hjudge

/-- A delivery takes the follower to the next change if it is accepted, and otherwise leaves it
    where it is. -/
theorem delivered (hl : types.Lawful) (hs : Stream types f n cs es)
    (h : Stands types f n cs k follower) (he : e ∈ es) :
    Stands types f n cs (k + if follower.takes e then 1 else 0) (follower.after e) := by
  obtain ⟨i, hi⟩ := List.mem_iff_getElem?.1 he
  rcases Nat.lt_trichotomy i k with hlt | rfl | hgt
  · rw [takes, after, h.receive_seen hs hi hlt]
    exact h
  · obtain ⟨raised, later, hreceive, hlater⟩ := h.receive_next hl hs hi
    rw [takes, after, hreceive]
    exact hlater
  · rw [takes, after, h.receive_early hs hi hgt]
    exact h

/-- Wherever a follower stands, deliveries take it on by as many changes as are accepted. -/
theorem deliveredAll (hl : types.Lawful) (hs : Stream types f n cs es)
    (h : Stands types f n cs k follower) {deliveries : List SequencedEvent}
    (hsub : deliveries ⊆ es) :
    Stands types f n cs (k + follower.accepted deliveries) (follower.afterAll deliveries) := by
  induction deliveries generalizing k follower with
  | nil => exact h
  | cons e deliveries ih =>
    obtain ⟨he, hrest⟩ := List.cons_subset.1 hsub
    rw [accepted, ← Nat.add_assoc]
    exact ih (h.delivered hl hs he) hrest

/-- Deliveries in order are all accepted. -/
theorem accepted_eq_length (hl : types.Lawful) (past : List SequencedEvent)
    {deliveries ahead : List SequencedEvent}
    (hs : Stream types f n cs (past ++ deliveries ++ ahead))
    (h : Stands types f n cs past.length follower) :
    follower.accepted deliveries = deliveries.length := by
  induction deliveries generalizing past follower with
  | nil => rfl
  | cons e deliveries ih =>
    have he : (past ++ e :: deliveries ++ ahead)[past.length]? = some e := by simp
    obtain ⟨raised, later, hreceive, hlater⟩ := h.receive_next hl hs he
    rw [accepted, takes, after, hreceive, List.length_cons, Nat.add_comm]
    refine congrArg (· + 1) (ih (past ++ [e]) ?_ ?_)
    · rwa [List.append_assoc past, List.singleton_append]
    · rwa [List.length_append]

/-- A follower that waits for the first event stands where the accepted deliveries take it. -/
theorem afterAll (hl : types.Lawful) (hs : Stream types f n cs es)
    (h : Stands types f n cs 0 follower) {deliveries : List SequencedEvent}
    (hsub : deliveries ⊆ es) :
    Stands types f n cs (follower.accepted deliveries) (follower.afterAll deliveries) := by
  have hall := h.deliveredAll hl hs hsub
  rwa [Nat.zero_add] at hall

/-- The first events, delivered in order, are all accepted. -/
theorem accepted_take (hl : types.Lawful) (hs : Stream types f n cs es)
    (h : Stands types f n cs 0 follower) (hk : k ≤ cs.length) :
    follower.accepted (es.take k) = k := by
  have hsplit : Stream types f n cs ([] ++ es.take k ++ es.drop k) := by
    rwa [List.nil_append, List.take_append_drop]
  rw [h.accepted_eq_length hl [] hsplit, List.length_take, hs.length_eq, Nat.min_eq_left hk]

end Stands

/-- A follower replicates what events tell of, whichever of them are delivered in whatever order. -/
structure Replicates (f : Forest) (n : UInt64) (cs : List Change) (es : List SequencedEvent)
    (follower : Follower) : Prop where
  numbered : es.map (·.number.toNat) = List.range' n.toNat cs.length
  /-- After as many changes as deliveries have been accepted, the nodes look the same. -/
  alike : ∀ ds ⊆ es,
    (f.changedBy (cs.take (follower.accepted ds))).Alike (follower.afterAll ds).site.forest
  /-- They are the nodes that these changes make as they arrive. -/
  nodes : ∀ ds ⊆ es, (follower.afterAll ds).site.forest.nodes =
    (f.changedBy ((cs.take (follower.accepted ds)).map Change.travelled)).nodes
  next : ∀ ds ⊆ es, ∀ e ∈ es, e.number.toNat = n.toNat + follower.accepted ds →
    ∃ raised later, Action.receiveEvent e (follower.afterAll ds) = .ok [raised] later
  seen : ∀ ds ⊆ es, ∀ e ∈ es, e.number.toNat < n.toNat + follower.accepted ds →
    Action.receiveEvent e (follower.afterAll ds) = .ok [] (follower.afterAll ds)
  early : ∀ ds ⊆ es, ∀ e ∈ es, n.toNat + follower.accepted ds < e.number.toNat →
    Action.receiveEvent e (follower.afterAll ds) =
      .error (.sequenceGap (n + .ofNat (follower.accepted ds)) e.number) (follower.afterAll ds)
  /-- In order all events are accepted. -/
  complete : ∀ k ≤ cs.length, follower.accepted (es.take k) = k
  /-- Whatever is delivered, the nodes are the very same, if and only if no list is empty. -/
  same_iff : (∀ ds ⊆ es, (follower.afterAll ds).site.forest.nodes =
    (f.changedBy (cs.take (follower.accepted ds))).nodes) ↔ ∀ c ∈ cs, c.Filled

/-- A follower that waits for the first event replicates. -/
theorem Stands.replicates {f : Forest} {follower : Follower} (hl : types.Lawful)
    (hs : Stream types f n cs es) (h : Stands types f n cs 0 follower) :
    follower.Replicates f n cs es := by
  have hstands {ds : List SequencedEvent} (hds : ds ⊆ es) := h.afterAll hl hs hds
  refine
    { numbered := ?_
      alike := fun ds hds => (hstands hds).alike
      nodes := fun ds hds => (hstands hds).nodes
      next := fun ds hds e he hnumber => ?_
      seen := fun ds hds e he hnumber => ?_
      early := fun ds hds e he hnumber => ?_
      complete := fun k hk => h.accepted_take hl hs hk
      same_iff := ?_ }
  · refine List.ext_getElem (by simp [hs.length_eq]) fun i hi hi' => ?_
    rw [List.getElem_map, List.getElem_range', Nat.one_mul]
    exact hs.number_eq (List.getElem?_eq_getElem _)
  · obtain ⟨i, hi⟩ := List.mem_iff_getElem?.1 he
    obtain rfl := Nat.add_left_cancel ((hs.number_eq hi).symm.trans hnumber)
    obtain ⟨raised, later, hreceive, -⟩ := (hstands hds).receive_next hl hs hi
    exact ⟨raised, later, hreceive⟩
  · obtain ⟨i, hi⟩ := List.mem_iff_getElem?.1 he
    rw [hs.number_eq hi] at hnumber
    exact (hstands hds).receive_seen hs hi (Nat.lt_of_add_lt_add_left hnumber)
  · obtain ⟨i, hi⟩ := List.mem_iff_getElem?.1 he
    rw [hs.number_eq hi] at hnumber
    exact (hstands hds).receive_early hs hi (Nat.lt_of_add_lt_add_left hnumber)
  · rw [← Forest.changedBy_travelled_iff hs.proper hs.accepts hs.trees]
    constructor
    · intro hsame k hk
      -- The first `k` events, in order, lead to where `k` changes have been made.
      have htake := hsame (es.take k) (List.take_subset k es)
      rw [(hstands (List.take_subset k es)).nodes, h.accepted_take hl hs hk] at htake
      exact htake
    · intro hsame ds hds
      rw [(hstands hds).nodes]
      exact hsame _ (hstands hds).bound

end Follower

namespace Site

variable {site : Site} {follower : Follower}

/-- A follower waits for the first event of a replicator if it has the same nodes and expects the
    next number. -/
theorem stands_of_same (cs : List Change) (hf : site.forest.Proper types)
    (htypes : follower.site.forest.types = types)
    (hnodes : follower.site.forest.nodes = site.forest.nodes)
    (hpartitions : follower.site.forest.partitions = site.forest.partitions)
    (hw : follower.site.bus.Willing) (htracker : follower.tracker = some ⟨some n⟩) :
    follower.Stands types site.forest n cs 0 where
  bound := Nat.zero_le _
  proper := by
    obtain ⟨htyped, ⟨htreelike, hdistinct, hroots⟩, -⟩ := hf
    rw [← hnodes] at htyped htreelike hroots
    rw [← hpartitions] at hdistinct hroots
    exact ⟨htyped, ⟨htreelike, hdistinct, hroots⟩, htypes⟩
  willing := hw
  tracker := htracker.trans (by rw [Tells.add_zero])
  nodes := hnodes
  alike := ⟨hf.types.trans htypes.symm, hnodes ▸ .refl _, hpartitions.symm⟩

/-- What a replicator tells of works is a stream. -/
theorem Reachable.exists_stream (hl : types.Lawful) {past : List Checkpoint} {made : List Change}
    (h : Site.Reachable types site past made) (hw : site.bus.Willing) {listener : Listener}
    (hreplicator : ⟨id, .replicator participation ⟨n⟩ ids, listener⟩ ∈ site.bus.subscriptions)
    (works : List Work) (hadmits : site.Admits works)
    (hroom : n.toNat + (site.raisedBy works).length < 2 ^ 64) :
    site.forest.Follows (site.afterAll works).forest ((site.raisedBy works).map (·.change)) ∧
      Stream types site.forest n ((site.raisedBy works).map (·.change))
        (Delivery.eventsOf id ((site.afterAll works).log.drop site.log.length)) := by
  obtain ⟨new, hlog, hfollows, htells⟩ :=
    exists_told_of hl h.proper hw (h.distinct.has hreplicator) works hadmits
  rw [hlog, List.drop_left]
  exact ⟨hfollows, h.proper, hfollows.accepts, hfollows.trees, htells, by rwa [List.length_map]⟩

/-- Whatever is done at a site, and whichever of the events that tell of it are delivered, in
    whatever order and however often: a follower that has started from the same nodes replicates
    it. -/
theorem Reachable.replicated {languages : List Language}
    (htypes : TypeRegistry.registerAll .empty languages = .ok types)
    {past : List Checkpoint} {made : List Change} (h : Site.Reachable types site past made)
    (hwilling : site.bus.Willing) {listener : Listener}
    (hreplicator : ⟨id, .replicator participation ⟨n⟩ ids, listener⟩ ∈ site.bus.subscriptions)
    (works : List Work) (hadmits : site.Admits works)
    (hroom : n.toNat + (site.raisedBy works).length < 2 ^ 64)
    (hfollower : follower.site.forest.types = types)
    (hnodes : follower.site.forest.nodes = site.forest.nodes)
    (hpartitions : follower.site.forest.partitions = site.forest.partitions)
    (hfollowerWilling : follower.site.bus.Willing) (htracker : follower.tracker = some ⟨some n⟩) :
    site.forest.Follows (site.afterAll works).forest ((site.raisedBy works).map (·.change)) ∧
      follower.Replicates site.forest n ((site.raisedBy works).map (·.change))
        (Delivery.eventsOf id ((site.afterAll works).log.drop site.log.length)) := by
  have hl := TypeRegistry.lawful_of_registerAll htypes
  obtain ⟨hfollows, hstream⟩ := h.exists_stream hl hwilling hreplicator works hadmits hroom
  -- Nothing has been followed yet, so the follower stands at the first of the changes.
  have hstands := stands_of_same ((site.raisedBy works).map (·.change)) hstream.proper
    hfollower hnodes hpartitions hfollowerWilling htracker
  exact ⟨hfollows, hstands.replicates hl hstream⟩

end Site

/-! ## A library and its replica -/

namespace Examples

/-- A site that tells of everything as events. -/
def relaying (site : Site) : Site :=
  Call.after site (.subscribe (.replicator ⟨"repository"⟩ ⟨0⟩ ⟨"repository", ⟨0⟩⟩) fun _ => none)

/-- A follower that waits for the first event. -/
def observing (site : Site) : Follower := ⟨site, some ⟨some 0⟩⟩

theorem reachable_relaying {types : TypeRegistry} {site : Site} {past : List Checkpoint}
    {made : List Change} (h : Site.Reachable types site past made) :
    Site.Reachable types (relaying site) past made := by
  have hcall := h.call (.subscribe (.replicator ⟨"repository"⟩ ⟨0⟩ ⟨"repository", ⟨0⟩⟩)
    fun _ => none) (List.forall_mem_nil _)
  rwa [Call.made, List.append_nil] at hcall

/-- The succession of one book by another is replicated. -/
theorem replicated_succession :
    (relaying stocked).forest.Follows
        ((relaying stocked).afterAll [.commit fun _ => .ok succession]).forest
        (((relaying stocked).raisedBy [.commit fun _ => .ok succession]).map (·.change)) ∧
      (observing stocked).Replicates (relaying stocked).forest 0
        (((relaying stocked).raisedBy [.commit fun _ => .ok succession]).map (·.change))
        (Delivery.eventsOf 0
          (((relaying stocked).afterAll [.commit fun _ => .ok succession]).log.drop
            (relaying stocked).log.length)) := by
  -- A commit raises at most one change, so a counter that starts at zero has room.
  have hroom : ((relaying stocked).raisedBy [.commit fun _ => .ok succession]).length ≤ 1 := by
    rw [Site.raisedBy, Site.raisedBy, List.append_nil]
    rcases Work.raised_commit (fun _ => .ok succession) (relaying stocked) with h | ⟨n, c, h⟩
    · rw [h]
      exact Nat.zero_le _
    · rw [h]
      exact Nat.le_refl _
  exact Site.Reachable.replicated registerAll_library (reachable_relaying reachable_stocked)
    (List.forall_mem_singleton.2 fun _ => rfl) List.mem_cons_self [.commit fun _ => .ok succession]
    ⟨List.forall_mem_singleton.2 (obtainable_of_leaf rfl), trivial⟩
    (Nat.lt_of_le_of_lt (Nat.add_le_add_left hroom _) (by decide)) rfl rfl rfl
    (List.forall_mem_nil _) rfl

/-- A library with an empty list of books. -/
def hollow : Subtree := ⟨city.root.withChildren ⟨2⟩ [], []⟩

/-- The library comes with the empty list. -/
def founding : Change := .partitionAdded hollow

/-- The library arrives without the list, so the replica does not store the same node. -/
theorem exists_apart :
    Site.Reachable libraryTypes (relaying (.empty libraryTypes)) [] [] ∧
      ((relaying (.empty libraryTypes)).raisedBy [.commit fun _ => .ok founding]).map (·.change) =
        [founding] ∧
      ¬∀ ds ⊆ Delivery.eventsOf 0 (((relaying (.empty libraryTypes)).afterAll
          [.commit fun _ => .ok founding]).log.drop (relaying (.empty libraryTypes)).log.length),
        ((observing (.empty libraryTypes)).afterAll ds).site.forest.nodes =
          ((relaying (.empty libraryTypes)).forest.changedBy
            ([founding].take ((observing (.empty libraryTypes)).accepted ds))).nodes := by
  have hl := TypeRegistry.lawful_of_registerAll registerAll_library
  have hraised : ((relaying (.empty libraryTypes)).raisedBy
      [.commit fun _ => .ok founding]).map (·.change) = [founding] := rfl
  refine ⟨reachable_relaying (.empty libraryTypes), hraised, fun hsame => ?_⟩
  obtain ⟨-, hstream⟩ := Site.Reachable.exists_stream hl (reachable_relaying (.empty libraryTypes))
    (List.forall_mem_singleton.2 fun _ => rfl) List.mem_cons_self [.commit fun _ => .ok founding]
    ⟨List.forall_mem_singleton.2 (obtainable_of_leaf rfl), trivial⟩ (by decide)
  rw [hraised] at hstream
  have hstands : (observing (.empty libraryTypes)).Stands libraryTypes _ 0 [founding] 0 :=
    Site.stands_of_same _ hstream.proper rfl rfl rfl (List.forall_mem_nil _) rfl
  -- The stored nodes are the same only if no list is empty, and one is.
  have hfilled := (hstands.replicates hl hstream).same_iff.1 hsame founding List.mem_cons_self
  exact (hfilled hollow List.mem_cons_self _ List.mem_cons_self).containments ⟨2⟩ rfl

end Examples

end DeltaForest
