import DeltaForest.Proofs.Guarded
import DeltaForest.Proofs.Played

/-!
# Replays that come to no slip

Nobody else gets at the forest of a replayer, and nobody listens (`Replayer.Alone`): its site has
come about by the messages that have been played. Every message keeps this, and so does a whole
replay (`Replayer.Action.careful_replay`) and one replay after the other
(`Replayer.Alone.afterAll`). So a replay ends with its sums or at a message that is refused, and not
by a slip, and all partitions can then be written (`Replayer.Guarded`).

Subtrees always have a root. The nodes of a subtree are listed from the root on, which is there both
when nodes are put together (`Subtree.below_ne_rootless`) and when they are taken out of a table
(`NodeTable.isSome_ofOrdered?`).

All this together is `TypeRegistry.guarded_of_registerAll`.
-/

namespace DeltaForest

open Protocol

variable {types : TypeRegistry}

/-! ## Roots of subtrees -/

/-- Where nodes are put together below one of them, that one is the root. -/
theorem Subtree.below_ne_rootless {nodes : List Node} {root : NodeId}
    (h : root ∈ nodes.map Node.id) : below nodes root ≠ .error (.invalidChunk .rootless) := by
  obtain ⟨n, hn⟩ : ∃ n, (NodeTable.ofList nodes)[root]? = some n := by
    obtain ⟨n, hmem, hid⟩ := List.mem_map.1 h
    rw [NodeTable.ofList, NodeTable.lookup_insertAll, Std.ExtTreeMap.getElem?_empty, Option.or_none]
    refine Option.isSome_iff_exists.1 (List.find?_isSome.2 ⟨n, List.mem_reverse.2 hmem, ?_⟩)
    exact decide_eq_true hid
  obtain ⟨rest, hrest⟩ := NodeTable.depthFirst_eq_cons (.ofList nodes) root
  rw [below]
  split
  · rintro ⟨⟩
  · -- The walk starts at the root, so it is the first node in the list.
    rw [hrest, List.filterMap_cons, hn]
    rintro ⟨⟩

/-- Where a node is taken out of a table with everything below it, it is the root. -/
theorem NodeTable.isSome_ofOrdered? {t : NodeTable} {root : NodeId} {nodes : List Node}
    (h : (t.depthFirst root).mapM t.get = .ok nodes) : (Subtree.ofOrdered? nodes).isSome := by
  obtain ⟨rest, hrest⟩ := depthFirst_eq_cons t root
  rw [mapM_get_eq_ok, hrest] at h
  cases nodes with
  | nil => cases h
  | cons n nodes => rfl

/-! ## Replayers -/

/-- A replayer whose site has come about, with nobody who listens. -/
structure Replayer.Alone (types : TypeRegistry) (r : Replayer) : Prop where
  reachable : ∃ past made, Site.Reachable types r.follower.site past made
  unheard : r.follower.site.bus.ids.1 = []

namespace Replayer

variable {r : Replayer} {languages : List Language}

theorem alone_start (participation : ParticipationId) (enforcesOrder : Bool) :
    (start types participation enforcesOrder).Alone types :=
  ⟨⟨[], [], .empty types⟩, rfl⟩

namespace Alone

/-- Messages bring nobody who listens. -/
theorem of_call (h : r.Alone types) (call : Call) (hcall : call.AboutForest)
    (hin : call.incoming = []) {follower : Follower}
    (hsite : follower.site = call.after r.follower.site) :
    ({ r with follower := follower } : Replayer).Alone types := by
  obtain ⟨⟨past, made, hreach⟩, hunheard⟩ := h
  have htrees (P : Subtree → Prop) : ∀ tree ∈ call.incoming, P tree := by
    rw [hin]
    exact List.forall_mem_nil _
  have hafter := Site.Reachable.call call hreach (htrees _)
  rw [← hsite] at hafter
  refine ⟨⟨past, _, hafter⟩, ?_⟩
  obtain ⟨f', -, hview⟩ := Call.tellsAfterwards hreach.sound.wellFormed (htrees _) hcall
  have hids := hview Site.Action.keeps_ids_emit
  exact (congrArg (fun site : Site => site.bus.ids.1) hsite).trans
    ((congrArg Prod.fst hids).trans hunheard)

theorem guarded (htypes : TypeRegistry.registerAll .empty languages = .ok types)
    (h : r.Alone types) : r.follower.site.Guarded := by
  obtain ⟨past, made, hreach⟩ := h.reachable
  exact hreach.guarded htypes

/-- Where nobody listens, nobody refuses. -/
theorem not_refused (h : r.Alone types) {site' : Site} {fault : Fault} :
    ¬r.follower.site.Refused site' fault := by
  rintro ⟨-, -, d, -, hid, -⟩
  rw [h.unheard] at hid
  exact List.not_mem_nil hid

end Alone

/-- What a replay ends with if it fails: a message that is refused, and not by a slip. -/
def Stops (trouble : Trouble) : Prop :=
  ∃ index kind fault, trouble = .rejected index kind fault ∧ ¬fault.IsSlip

namespace Action

variable {α β : Type}

/-- An action after which a replayer is alone if it was so before, and that fails at messages
    only. -/
def Careful (types : TypeRegistry) (action : Action α) : Prop :=
  ∀ r, r.Alone types → (stateAfter (action r)).Alone types ∧
    ∀ trouble r', action r = .error trouble r' → Stops trouble

theorem careful_pure (a : α) : Careful types (pure a : Action α) := by
  refine fun r hr => ⟨hr, ?_⟩
  rintro trouble r' ⟨⟩

theorem careful_get : Careful types (get : Action Replayer) := by
  refine fun r hr => ⟨hr, ?_⟩
  rintro trouble r' ⟨⟩

theorem Careful.bind {action : Action α} {next : α → Action β} (h : Careful types action)
    (h' : ∀ a, Careful types (next a)) : Careful types (action >>= next) := by
  intro r hr
  obtain ⟨halone, hstops⟩ := h r hr
  cases haction : action r with
  | ok a r₁ =>
    rw [haction] at halone
    have hnext : (action >>= next) r = next a r₁ := bind_of_ok haction
    rw [hnext]
    -- The second action starts from where the first one has left off, with nobody else listening.
    exact h' a r₁ halone
  | error trouble r₁ =>
    rw [haction] at halone
    have hnext : (action >>= next) r = .error trouble r₁ := bind_of_error haction
    rw [hnext]
    refine ⟨halone, ?_⟩
    rintro trouble' r' ⟨⟩
    exact hstops trouble r₁ haction

/-- An action of the follower that keeps a replayer alone and comes to no slip. -/
theorem careful_onFollower {index : Nat} {kind : String} {action : Follower.Action α}
    (hkeeps : ∀ r : Replayer, r.Alone types →
      ({ r with follower := stateAfter (action r.follower) } : Replayer).Alone types)
    (hsafe : ∀ r : Replayer, r.Alone types → ∀ fault follower,
      action r.follower = .error fault follower → ¬fault.IsSlip) :
    Careful types (onFollower index kind action) := by
  intro r hr
  have halone := hkeeps r hr
  rw [onFollower]
  cases haction : action r.follower with
  | ok a follower =>
    rw [haction] at halone
    refine ⟨halone, ?_⟩
    rintro trouble r' ⟨⟩
  | error fault follower =>
    rw [haction] at halone
    refine ⟨halone, ?_⟩
    rintro trouble r' ⟨⟩
    -- What is told to the outside is the position of the message in its file.
    exact ⟨index, kind, fault, rfl, hsafe r hr fault follower haction⟩

section Playing

variable (htypes : TypeRegistry.registerAll .empty languages = .ok types)

include htypes

theorem careful_command {index : Nat} {kind : String} {participation : ParticipationId}
    {message : CommandMessage} : Careful types (onFollower index kind
      (.onSite (Site.Action.receiveCommand participation message))) := by
  have honSite (follower : Follower) :
      (stateAfter (Follower.Action.onSite (Site.Action.receiveCommand participation message)
        follower)).site = Call.after follower.site (.receive participation message) := by
    rw [Follower.Action.onSite, Call.after]
    cases Site.Action.receiveCommand participation message follower.site <;> rfl
  refine careful_onFollower
    (fun r hr => hr.of_call (.receive participation message) trivial rfl (honSite _))
    fun r hr fault follower herror => ?_
  rw [Follower.Action.onSite] at herror
  cases hreceive : Site.Action.receiveCommand participation message r.follower.site with
  | ok raised site' =>
    rw [hreceive] at herror
    cases herror
  | error fault' site' =>
    rw [hreceive] at herror
    cases herror
    have hguarded := (hr.guarded htypes).commands participation (.command message) _ site' hreceive
    -- No subscriber can have refused, as there is none.
    exact hguarded.resolve_right hr.not_refused

theorem careful_event {index : Nat} {kind : String} {message : SequencedEvent} :
    Careful types (onFollower index kind (Follower.Action.receiveEvent message)) := by
  refine careful_onFollower
    (fun r hr => hr.of_call (.follow r.follower.tracker message) trivial rfl rfl)
    fun r hr fault follower herror => ?_
  have hguarded := (hr.guarded htypes).events r.follower.tracker (.event message) fault
    follower.site follower.tracker herror
  exact hguarded.resolve_right hr.not_refused

/-- Commands and events are received, and all other messages skipped. -/
theorem careful_play (index : Nat) (message : Message) (s : ReplaySummary) :
    Careful types (play index message s) := by
  cases message with
  | command message =>
    refine careful_get.bind fun r => ?_
    exact (careful_command htypes).bind fun raised => careful_pure _
  | event message =>
    refine (careful_event htypes).bind fun raised => ?_
    split
    · exact careful_pure _
    · exact careful_pure _
  | _ => exact careful_pure _

theorem careful_playAll (messages : List (Message × Nat)) (s : ReplaySummary) :
    Careful types (playAll messages s) := by
  induction messages generalizing s with
  | nil => exact careful_pure s
  | cons first rest ih => exact (careful_play htypes first.2 first.1 s).bind ih

omit htypes in
/-- All partitions can be counted. -/
theorem careful_summaries : Careful types summaries := by
  intro r hr
  obtain ⟨past, made, hreach⟩ := hr.reachable
  rw [summaries_of_wellFormed hreach.sound.wellFormed]
  refine ⟨hr, ?_⟩
  rintro trouble r' ⟨⟩

theorem careful_replay (messages : List Message) : Careful types (replay messages) := by
  refine (careful_playAll htypes _ _).bind fun s => ?_
  exact careful_summaries.bind fun sums => careful_pure _

end Playing

end Action

/-- A replayer after several replays, of which any may have failed. -/
def afterAll (r : Replayer) (runs : List (List Message)) : Replayer :=
  runs.foldl (fun r messages => stateAfter (Action.replay messages r)) r

theorem Alone.afterAll (htypes : TypeRegistry.registerAll .empty languages = .ok types)
    (h : r.Alone types) (runs : List (List Message)) : (r.afterAll runs).Alone types := by
  induction runs generalizing r with
  | nil => exact h
  | cons messages runs ih => exact ih (Action.careful_replay htypes messages r h).1

/-- A replayer that comes to no slip, whatever is replayed next. -/
structure Guarded (r : Replayer) : Prop where
  site : r.follower.site.Guarded
  /-- A replay that fails does so at a message. -/
  stops : ∀ messages trouble r', Action.replay messages r = .error trouble r' → Stops trouble
  exported : ∃ chunks, r.partitions = .ok chunks

theorem Alone.replayer_guarded (htypes : TypeRegistry.registerAll .empty languages = .ok types)
    (h : r.Alone types) : r.Guarded := by
  have hsite := h.guarded htypes
  refine ⟨hsite, fun messages => (Action.careful_replay htypes messages r h).2, ?_⟩
  refine exists_mapM fun root hroot => ?_
  obtain ⟨chunk, hchunk⟩ := hsite.exported root hroot
  exact ⟨chunk, congrArg (Except.mapError (Trouble.partition root)) hchunk⟩

end Replayer

/-! ## What comes over the wire -/

/-- With registered types, what comes over the wire leads to no handle that was not issued and to no
    edit behind the end of a list, at any site that has come about and in any replay. No subtree is
    without a root, whether it is put together from nodes or taken out of a table. -/
theorem TypeRegistry.guarded_of_registerAll {languages : List Language}
    (htypes : TypeRegistry.registerAll .empty languages = .ok types) :
    (∀ site past made, Site.Reachable types site past made → site.Guarded) ∧
      (∀ participation enforcesOrder runs,
        ((Replayer.start types participation enforcesOrder).afterAll runs).Guarded) ∧
      (∀ nodes root, root ∈ nodes.map Node.id →
        Subtree.below nodes root ≠ .error (.invalidChunk .rootless)) ∧
      ∀ (t : NodeTable) root nodes, (t.depthFirst root).mapM t.get = .ok nodes →
        (Subtree.ofOrdered? nodes).isSome := by
  refine ⟨fun site past made h => h.guarded htypes, fun participation enforcesOrder runs => ?_,
    fun nodes root => Subtree.below_ne_rootless, fun t root nodes => NodeTable.isSome_ofOrdered?⟩
  have halone : (Replayer.start types participation enforcesOrder).Alone types :=
    Replayer.alone_start participation enforcesOrder
  exact (halone.afterAll htypes runs).replayer_guarded htypes

namespace Examples

/-- A number of pages for a book that has never come. -/
def counting : CommandMessage :=
  .single ⟨⟨"pages"⟩, .addProperty ⟨"novel"⟩ ⟨"library", "1", "Book-pages"⟩ "474", none⟩

/-- The library with its book can be written. A replay stops where a book is missing, and all that
    has come until then can be written. -/
theorem guarded_library :
    TypeRegistry.registerAll .empty [library] = .ok libraryTypes ∧
      Site.Reachable libraryTypes stocked [] [opening, shelving] ∧
      (∃ chunk, stocked.forest.model.chunk ⟨"city"⟩ = .ok chunk) ∧
      ∃ trouble after,
        Replayer.Action.replay [.command counting] (.start libraryTypes ⟨"client"⟩ true) =
          .error trouble after ∧
        Replayer.Stops trouble ∧ ∃ chunks, after.partitions = .ok chunks := by
  obtain ⟨hsites, hreplays, -, -⟩ := TypeRegistry.guarded_of_registerAll registerAll_library
  have hstocked := (hsites stocked [] _ reachable_stocked).exported ⟨"city"⟩ (by decide +kernel)
  have hreplay : Replayer.Action.replay [.command counting] (.start libraryTypes ⟨"client"⟩ true) =
      .error (.rejected 0 "AddProperty" (.unknownNode ⟨"novel"⟩))
        (.start libraryTypes ⟨"client"⟩ true) := rfl
  exact ⟨registerAll_library, reachable_stocked, hstocked, _, _, hreplay,
    (hreplays ⟨"client"⟩ true []).stops _ _ _ hreplay,
    (hreplays ⟨"client"⟩ true [[.command counting]]).exported⟩

end Examples

end DeltaForest
