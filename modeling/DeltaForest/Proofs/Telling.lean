import DeltaForest.Proofs.Relayed

/-!
# Telling of changes

If no listener refuses (`Bus.Willing`) and a change can be told as a command and as an event
(`Change.Tellable`), telling the subscribers of a site of it never fails
(`Site.Action.emitAll_eq`). Every subscriber is then told, once, what it makes of the change, and is
the one that this leaves from then on (`Site.toldAll`). A subscriber is followed by the id of its
subscription, which no other one has (`Site.Reachable.distinct`).
-/

namespace DeltaForest

open Protocol

variable {types : TypeRegistry} {model : Model} {raised : Raised} {id : Nat}

/-- A change that can be told in both ways. -/
structure Change.Tellable (types : TypeRegistry) (c : Change) : Prop where
  command : ∃ command, Command.ofChange types c = .ok command
  event : ∃ event, Event.ofChange types c = .ok event

/-! ## One subscriber -/

namespace Subscriber

/-- What a subscriber has to tell of a change. -/
def notices (model : Model) (raised : Raised) (s : Subscriber) : List Notice :=
  match s.notice model raised with
  | .ok (notice, _) => notice.toList
  | .error _ => []

/-- A subscriber after it has been told of a change. -/
def next (model : Model) (raised : Raised) (s : Subscriber) : Subscriber :=
  match s.notice model raised with
  | .ok (_, s') => s'
  | .error _ => s

/-- What a subscriber has to tell of changes, one after the other. -/
def noticesAll (model : Model) (s : Subscriber) : List Raised → List Notice
  | [] => []
  | raised :: rest => s.notices model raised ++ (s.next model raised).noticesAll model rest

/-- A subscriber after it has been told of changes, one after the other. -/
def nextAll (model : Model) (s : Subscriber) (all : List Raised) : Subscriber :=
  all.foldl (fun s raised => s.next model raised) s

/-- There is something to be told, or nothing, but no fault. -/
theorem exists_notice (h : raised.change.Tellable model.types) (s : Subscriber) :
    ∃ notice s', s.notice model raised = .ok (notice, s') := by
  obtain ⟨⟨command, hcommand⟩, event, hevent⟩ := h
  -- A watcher reads the change itself, the others its command or its event.
  cases s with
  | watcher filter =>
    rw [notice]
    split
    · exact ⟨_, _, rfl⟩
    · exact ⟨_, _, rfl⟩
  | publisher ids =>
    rw [notice]
    split
    · rw [hcommand]
      exact ⟨_, _, rfl⟩
    · exact ⟨_, _, rfl⟩
  | replicator participation numbers ids =>
    rw [notice, Raised.toEvent, hevent]
    exact ⟨_, _, rfl⟩

end Subscriber

/-! ## All subscribers -/

/-- The subscribers that have an id. -/
def Subscription.under (id : Nat) (subscriptions : List Subscription) : List Subscriber :=
  (subscriptions.filter (·.id = id)).map (·.subscriber)

/-- What has been handed over under an id. -/
def Delivery.noticesOf (id : Nat) (deliveries : List Delivery) : List Notice :=
  (deliveries.filter (·.subscription = id)).map (·.notice)

theorem Delivery.noticesOf_append (ds ds' : List Delivery) :
    noticesOf id (ds ++ ds') = noticesOf id ds ++ noticesOf id ds' := by
  rw [noticesOf, List.filter_append, List.map_append]
  rfl

namespace Subscription

variable {s : Subscription} {l : List Subscription}

/-- A subscription whose listener refuses nothing. -/
def Willing (s : Subscription) : Prop := ∀ n, s.listener.refusal n = none

/-- A subscription after its subscriber has been told of a change. The listener has been called if
    there was something to tell. -/
def next (model : Model) (raised : Raised) (s : Subscription) : Subscription where
  id := s.id
  subscriber := s.subscriber.next model raised
  listener :=
    { s.listener with calls := s.listener.calls + (s.subscriber.notices model raised).length }

/-- What is handed over to a willing listener when its subscriber is told of a change. -/
def deliveries (model : Model) (raised : Raised) (s : Subscription) : List Delivery :=
  (s.subscriber.notices model raised).map (⟨s.id, ·, none⟩)

theorem Willing.next (hw : s.Willing) : (s.next model raised).Willing := hw

/-- What telling a willing subscriber comes to. -/
theorem tell_eq (hw : s.Willing) (h : raised.change.Tellable model.types) :
    s.tell model raised = ⟨[s.next model raised], s.deliveries model raised, none⟩ := by
  obtain ⟨notice, subscriber, hnotice⟩ := s.subscriber.exists_notice h
  have hrefusal := hw s.listener.calls
  rw [tell, next, deliveries, Subscriber.next, Subscriber.notices, hnotice]
  cases notice with
  | none => rfl
  | some notice => simp [hrefusal]

/-- What telling willing subscribers comes to. -/
theorem tellAll_eq (hw : ∀ s ∈ l, s.Willing) (h : raised.change.Tellable model.types) :
    tellAll model raised l =
      ⟨l.map (·.next model raised), l.flatMap (·.deliveries model raised), none⟩ := by
  induction l with
  | nil => rfl
  | cons s rest ih =>
    obtain ⟨hs, hrest⟩ := List.forall_mem_cons.1 hw
    rw [tellAll, tell_eq hs h, ih hrest]
    rfl

theorem under_append (l l' : List Subscription) :
    under id (l ++ l') = under id l ++ under id l' := by
  rw [under, List.filter_append, List.map_append]
  rfl

theorem under_map_next :
    under id (l.map (·.next model raised)) = (under id l).map (·.next model raised) := by
  rw [under, List.filter_map, List.map_map, under, List.map_map]
  rfl

theorem noticesOf_deliveries : Delivery.noticesOf id (l.flatMap (·.deliveries model raised)) =
    (under id l).flatMap (·.notices model raised) := by
  induction l with
  | nil => rfl
  | cons s rest ih =>
    have hfirst : Delivery.noticesOf id (s.deliveries model raised) =
        (under id [s]).flatMap (·.notices model raised) := by
      by_cases hid : s.id = id <;>
        simp [hid, under, Delivery.noticesOf, deliveries, List.filter_map, Function.comp_def]
    have hsplit : under id (s :: rest) = under id [s] ++ under id rest := under_append [s] rest
    rw [List.flatMap_cons, Delivery.noticesOf_append, hfirst, ih, hsplit, List.flatMap_append]

end Subscription

namespace Bus

/-- A bus on which no listener refuses. -/
def Willing (b : Bus) : Prop := ∀ s ∈ b.subscriptions, s.Willing

/-- Under an id there is one subscriber on the bus. -/
def Has (b : Bus) (id : Nat) (s : Subscriber) : Prop :=
  Subscription.under id b.subscriptions = [s]

end Bus

/-! ## Sites -/

namespace Site

variable {site : Site} {all : List Raised}

/-- A site all of whose subscribers have been told of a change. -/
def told (site : Site) (raised : Raised) : Site :=
  { site with
    bus := { site.bus with
      subscriptions := site.bus.subscriptions.map (·.next site.forest.model raised) }
    log := site.log ++ site.bus.subscriptions.flatMap (·.deliveries site.forest.model raised) }

/-- A site all of whose subscribers have been told of changes, one after the other. -/
def toldAll (site : Site) (all : List Raised) : Site := all.foldl told site

@[simp] theorem forest_toldAll : (site.toldAll all).forest = site.forest := by
  induction all generalizing site with
  | nil => rfl
  | cons raised all ih => exact ih

theorem willing_told (hw : site.bus.Willing) : (site.told raised).bus.Willing :=
  List.forall_mem_map.2 fun s hs => (hw s hs).next

theorem willing_toldAll (hw : site.bus.Willing) : (site.toldAll all).bus.Willing := by
  induction all generalizing site with
  | nil => exact hw
  | cons raised all ih => exact ih (willing_told hw)

/-- What a subscriber has been told of changes is what it makes of them. -/
theorem toldAll_log (site : Site) (all : List Raised) :
    ∃ new, (site.toldAll all).log = site.log ++ new ∧ ∀ id s, site.bus.Has id s →
      (site.toldAll all).bus.Has id (s.nextAll site.forest.model all) ∧
        Delivery.noticesOf id new = s.noticesAll site.forest.model all := by
  induction all generalizing site with
  | nil => exact ⟨[], (List.append_nil _).symm, fun id s hs => ⟨hs, rfl⟩⟩
  | cons raised all ih =>
    obtain ⟨new, hlog, htold⟩ := ih (site.told raised)
    refine ⟨_, hlog.trans (List.append_assoc _ _ _), fun id s hs => ?_⟩
    -- The first change moves the subscriber on, and the rest is told to it as it is then.
    rw [Bus.Has] at hs
    have hs' : (site.told raised).bus.Has id (s.next site.forest.model raised) := by
      rw [Bus.Has, told, Subscription.under_map_next, hs]
      rfl
    obtain ⟨hs'', hnotices⟩ := htold id _ hs'
    refine ⟨hs'', ?_⟩
    rw [Delivery.noticesOf_append, hnotices, Subscription.noticesOf_deliveries, hs]
    simp [Subscriber.noticesAll, told]

namespace Action

/-- Telling all subscribers of a change. -/
theorem emit_eq (hw : site.bus.Willing) (h : raised.change.Tellable site.forest.types) :
    emit raised site = .ok () (site.told raised) := by
  have htell : raised.change.Tellable site.forest.model.types := h
  rw [emit, Subscription.tellAll_eq hw htell]
  rfl

/-- Telling all subscribers of changes, one after the other. -/
theorem emitAll_eq (hw : site.bus.Willing)
    (h : ∀ raised ∈ all, raised.change.Tellable site.forest.types) :
    all.forM emit site = .ok () (site.toldAll all) := by
  induction all generalizing site with
  | nil => rfl
  | cons raised all ih =>
    obtain ⟨hfirst, hrest⟩ := List.forall_mem_cons.1 h
    show (emit raised >>= fun _ => all.forM emit) site = _
    -- The forest is the same and no listener refuses, so telling can go on.
    rw [bind_of_ok (emit_eq hw hfirst)]
    exact ih (willing_told hw) hrest

end Action

end Site

/-! ## Ids of subscriptions -/

namespace Subscription

/-- Telling leaves the subscriptions where they are. -/
theorem ids_tellAll (model : Model) (raised : Raised) (l : List Subscription) :
    (tellAll model raised l).subscriptions.map (·.id) = l.map (·.id) := by
  -- A subscription keeps its number, whatever is told to it.
  have htell (s : Subscription) : (s.tell model raised).subscriptions.map (·.id) = [s.id] := by
    rw [tell]
    cases s.subscriber.notice model raised with
    | error fault => rfl
    | ok told =>
      obtain ⟨notice, subscriber⟩ := told
      cases notice <;> rfl
  induction l with
  | nil => rfl
  | cons s rest ih =>
    rw [tellAll, List.map_cons]
    cases (s.tell model raised).fault with
    | some fault =>
      dsimp only
      rw [List.map_append, htell]
      rfl
    | none =>
      dsimp only
      rw [List.map_append, htell, ih]
      rfl

end Subscription

/-- The ids that have been given on a bus, and the one to be given next. -/
def Bus.ids (b : Bus) : List Nat × Nat := (b.subscriptions.map (·.id), b.nextId)

/-- No id has been given twice, and the next one has not been given. -/
def Bus.Distinct (b : Bus) : Prop := b.ids.1.Nodup ∧ ∀ id ∈ b.ids.1, id < b.ids.2

/-- A subscription is the only one that has its id. -/
theorem Bus.Distinct.has {b : Bus} {s : Subscription} (h : b.Distinct) (hs : s ∈ b.subscriptions) :
    b.Has s.id s.subscriber := by
  obtain ⟨before, behind, hsplit⟩ := List.append_of_mem hs
  have hnodup := h.1
  rw [ids, hsplit, List.map_append, List.map_cons, List.nodup_append] at hnodup
  obtain ⟨-, hbehind, hbefore⟩ := hnodup
  -- The subscriptions in front and behind have other numbers.
  have hother {l : List Subscription} (hl : ∀ s' ∈ l, s'.id ≠ s.id) :
      l.filter (·.id = s.id) = [] :=
    List.filter_eq_nil_iff.2 fun s' hs' => by simpa using hl s' hs'
  have hfirst : ∀ s' ∈ before, s'.id ≠ s.id := fun s' hs' =>
    hbefore _ (List.mem_map_of_mem hs') _ List.mem_cons_self
  have hlast : ∀ s' ∈ behind, s'.id ≠ s.id := fun s' hs' heq =>
    (List.nodup_cons.1 hbehind).1 (heq ▸ List.mem_map_of_mem hs')
  rw [Has, Subscription.under, hsplit, List.filter_append, List.filter_cons, hother hfirst,
    hother hlast]
  simp

namespace Site.Action

theorem keeps_ids_emit (raised : Raised) : Keeps (fun site => site.bus.ids) (emit raised) := by
  intro site
  have hids := Subscription.ids_tellAll site.forest.model raised site.bus.subscriptions
  rw [emit]
  dsimp only
  split
  · exact congrArg (·, _) hids
  · exact congrArg (·, _) hids

end Site.Action

/-- Ids stay distinct, whoever subscribes or goes. -/
theorem Call.distinct_after {site : Site} {call : Call} (hf : site.forest.WellFormed)
    (htree : ∀ tree ∈ call.incoming, tree.IsTree) (h : site.bus.Distinct) :
    (call.after site).bus.Distinct := by
  cases call with
  | subscribe subscriber refusal =>
    obtain ⟨hnodup, hlt⟩ := h
    have hids : (site.bus.subscribe subscriber refusal).2.ids =
        (site.bus.ids.1 ++ [site.bus.ids.2], site.bus.ids.2 + 1) := by
      simp [Bus.subscribe, Bus.ids]
    show Bus.Distinct _
    rw [Bus.Distinct, after, hids]
    refine ⟨List.nodup_append.2 ⟨hnodup, List.nodup_singleton _, ?_⟩, ?_⟩
    · rintro id hid id' hid' rfl
      exact Nat.lt_irrefl _ (List.mem_singleton.1 hid' ▸ hlt id hid)
    · intro id hid
      rcases List.mem_append.1 hid with hid | hid
      · exact Nat.lt_succ_of_lt (hlt id hid)
      · exact List.mem_singleton.1 hid ▸ Nat.lt_succ_self _
  | unsubscribe id =>
    have hsub : ((site.bus.unsubscribe id).2.ids.1).Sublist site.bus.ids.1 :=
      List.filter_sublist.map _
    exact ⟨h.1.sublist hsub, fun id' hid' => h.2 id' (hsub.subset hid')⟩
  | _ =>
    -- The forest does not matter, and telling gives no ids.
    obtain ⟨f', -, hview⟩ := tellsAfterwards hf htree trivial
    have hids := hview Site.Action.keeps_ids_emit
    rwa [Bus.Distinct, hids]

/-- In whatever comes about, no two subscriptions have the same id. -/
theorem Site.Reachable.distinct {site : Site} {past : List Checkpoint} {made : List Change} :
    Site.Reachable types site past made → site.bus.Distinct
  | .empty _ => ⟨List.nodup_nil, List.forall_mem_nil _⟩
  | .call _ h hin =>
    Call.distinct_after h.sound.wellFormed (fun tree ht => (hin tree ht).isTree) h.distinct
  | .note h => h.distinct
  | .goBack h _ => h.distinct

end DeltaForest
