import DeltaForest.Proofs.Exported
import DeltaForest.Proofs.Slips
import DeltaForest.Proofs.Works

/-!
# Sites that come to no slip

Whatever messages are handed to a site that has come about, nothing slips (`Site.Guarded`): all
handles on its nodes are issued, so that parts of messages are understood and planned without a slip
(`safe_applyAll`), what they amount to is made to its end (`exists_perform`), and the subscribers
can be told of it. Only a listener is free to refuse with any fault that it likes; then the delivery
that was refused is in the log (`Site.Refused`). Writing a node with everything below it comes to no
slip either, and every partition can be written.
-/

namespace DeltaForest

open Protocol

variable {types : TypeRegistry}

/-! ## Writing -/

namespace Chunk

/-- On a node with issued handles, all pointers are found. -/
theorem Item.safe_ofNode {n : Node} (hn : n.Issued types) : Safe (Item.ofNode types n) := by
  -- Each feature that a node stores has been issued, and so can be named.
  have hstored {α β : Type} {stored : FeatureMap α} {write : Handle × α → Except Fault β}
      (hmem : ∀ h ∈ stored, h ∈ n.handles)
      (hwrite : ∀ h a, Safe (types.pointer h) → Safe (write (h, a))) :
      Safe (stored.toList.mapM write) := by
    refine .mapM fun (h, a) ha => hwrite h a (TypeRegistry.safe_pointer_iff.2 (hn h (hmem h ?_)))
    exact mem_of_lookup (Std.ExtTreeMap.mem_toList_iff_getElem?_eq_some.1 ha)
  refine .bind (TypeRegistry.safe_pointer_iff.2 hn.classifier) fun _ _ => ?_
  refine .bind (hstored (fun h hp => Node.mem_handles.2 (.inr (.inl hp))) ?_) fun _ _ => ?_
  · exact fun h v hpointer => .bind hpointer fun _ _ => .ok _
  refine .bind (hstored (fun h hc => Node.mem_handles.2 (.inr (.inr (.inl hc)))) ?_) fun _ _ => ?_
  · exact fun h ids hpointer => .bind hpointer fun _ _ => .ok _
  refine .bind (hstored (fun h hr => Node.mem_handles.2 (.inr (.inr (.inr hr)))) ?_) fun _ _ => ?_
  · exact fun h es hpointer => .bind hpointer fun _ _ => .ok _
  exact .ok _

end Chunk

/-- Any node can be asked for. -/
theorem Model.safe_chunk {m : Model} (hnodes : m.nodes.Issued m.types) (root : NodeId) :
    Safe (m.chunk root) := by
  refine .bind NodeTable.safe_collect fun tree htree => ?_
  refine .bind (.mapM fun n hn => Chunk.Item.safe_ofNode ?_) fun _ _ => .ok _
  -- The nodes of the subtree are those of the table.
  have hmem := List.mem_map_of_mem (f := some) hn
  rw [← NodeTable.collect_eq_ok.1 htree] at hmem
  obtain ⟨id, -, hid⟩ := List.mem_map.1 hmem
  exact hnodes id n hid

/-- A node that is there, where all nodes conform, can be written with everything below it. -/
theorem Model.exists_chunk_of_mem {m : Model} (hl : m.types.Lawful) (ht : m.nodes.Treelike)
    (hconforms : m.nodes.Obeys (.conforming m.types)) {root : NodeId} (hroot : root ∈ m.nodes) :
    ∃ chunk, m.chunk root = .ok chunk := by
  obtain ⟨tree, hcollect⟩ := ht.exists_collect hroot
  have hitem : ∀ n ∈ tree.nodes, ∃ item, Chunk.Item.ofNode m.types n = .ok item := fun n hn =>
    have hlookup := (NodeTable.lookup_of_mem_collect ht.keyed hcollect hn).2
    have ⟨item, hitem, _⟩ := Chunk.exists_item hl (hconforms n.id n hlookup)
    ⟨item, hitem⟩
  obtain ⟨items, hitems⟩ := exists_mapM hitem
  exact ⟨⟨items⟩, by rw [Model.chunk, hcollect, ok_bind, Chunk.ofSubtree, hitems]; rfl⟩

/-! ## Forests -/

/-- A forest with some types that is as it should be, with nodes that conform to the types. -/
structure Forest.Sane (types : TypeRegistry) (f : Forest) : Prop where
  proper : f.Proper types
  conforming : f.nodes.Obeys (.conforming types)

namespace Forest.Sane

variable {f : Forest} {c : Change}

/-- In a sane forest all handles have been issued. -/
theorem issued (h : f.Sane types) : f.nodes.Issued types :=
  fun k n hn => (h.conforming k n hn).issued

/-- A sane forest stays so with every accepted change. -/
theorem changed (hl : types.Lawful) (h : f.Sane types) (hc : f.model.replan c = .ok c)
    (htree : ∀ tree ∈ c.incoming, tree.IsTree) : (f.changed c).Sane types := by
  obtain ⟨hproper, hconforming⟩ := h
  refine ⟨hproper.changed hc htree, ?_⟩
  obtain rfl := hproper.types
  exact Change.conforms_outcome (m := f.model) hl hproper.wellFormed.treelike hconforming
    (Model.fits_of_replan hc) (Model.permitted_of_replan hc) htree

end Forest.Sane

/-- Whatever comes about is sane. -/
theorem Site.Reachable.sane {languages : List Language} {site : Site} {past : List Checkpoint}
    {made : List Change} (htypes : TypeRegistry.registerAll .empty languages = .ok types)
    (h : Site.Reachable types site past made) : site.forest.Sane types :=
  ⟨h.proper, h.obeys_conforming htypes⟩

namespace Forest.Action

variable {α : Type} {toRaised : Model → α → Except Fault Raised}

/-- If parts can be understood without a slip wherever the forest is as it should be, making a
    message comes to no slip: each part is read in a forest that the ones before it have left so,
    and a part that is understood is made. -/
theorem safe_applyParts (hl : types.Lawful) (hr : Reads toRaised)
    (hread : ∀ (f : Forest) (part : α), f.Sane types → Safe (toRaised f.model part))
    {parts : List α} {f f' : Forest} {fault : Fault} (hf : f.Sane types)
    (h : applyParts toRaised parts f = .error fault f') : ¬fault.IsSlip := by
  induction parts generalizing f with
  | nil => cases h
  | cons part parts ih =>
    cases hpart : toRaised f.model part with
    | error fault' =>
      rw [applyParts_cons_of_error hpart] at h
      cases h
      exact hread _ part hf _ hpart
    | ok raised =>
      have hwell := hf.proper.wellFormed
      obtain ⟨hreplan, htree, -⟩ := apply_of_reads hr hwell hpart
      rw [applyParts_cons_of_ok hr hwell hpart] at h
      cases hrest : applyParts toRaised parts (f.changed raised.change) with
      | ok all f'' =>
        rw [hrest] at h
        cases h
      | error fault' f'' =>
        rw [hrest] at h
        cases h
        -- The rest is read in the forest that this part has left.
        exact ih (hf.changed hl hreplan htree) hrest

/-- A message as a whole comes to no slip if none of its parts does. -/
theorem safe_applyAll (hl : types.Lawful) (hr : Reads toRaised)
    (hread : ∀ (f : Forest) (part : α), f.Sane types → Safe (toRaised f.model part))
    {parts : List α} {f f' : Forest} {fault : Fault} (hf : f.Sane types)
    (h : applyAll toRaised parts f = .error fault f') : ¬fault.IsSlip := by
  rw [applyAll_eq hr hf.proper.wellFormed] at h
  cases hparts : applyParts toRaised parts f with
  | ok all f'' =>
    rw [hparts] at h
    cases h
  | error fault' f'' =>
    rw [hparts] at h
    cases h
    exact safe_applyParts hl hr hread hf hparts

/-- A part that is understood is made step by step to its end: each list reaches as far as it is
    edited. -/
theorem exists_perform (hr : Reads toRaised) {f : Forest} (hf : f.Sane types) {part : α}
    {raised : Raised} (hpart : toRaised f.model part = .ok raised) :
    ∃ f', perform raised.change f = .ok () f' := by
  have hwell := hf.proper.wellFormed
  obtain ⟨hreplan, htree, -⟩ := apply_of_reads hr hwell hpart
  exact ⟨_, perform_eq hwell.treelike (Model.fits_of_replan hreplan) htree⟩

end Forest.Action

namespace Protocol

variable {f : Forest}

/-- A command is read safely in a sane forest. -/
theorem CommandPart.safe_read (hl : types.Lawful) (participation : ParticipationId)
    (part : CommandPart) (hf : f.Sane types) : Safe (part.toRaised participation f.model) := by
  have hissued := hf.issued
  obtain rfl := hf.proper.types
  exact safe_toRaised (m := f.model) hl hissued participation part

/-- An event is read safely in a sane forest. -/
theorem EventPart.safe_read (hl : types.Lawful) (part : EventPart) (hf : f.Sane types) :
    Safe (part.toRaised f.model) := by
  have hissued := hf.issued
  obtain rfl := hf.proper.types
  exact safe_toRaised (m := f.model) hl hissued part

end Protocol

/-! ## Listeners -/

/-- Somebody who had subscribed before has been told of something meanwhile, and refuses it with
    the fault. -/
def Site.Refused (site site' : Site) (fault : Fault) : Prop :=
  ∃ new, site'.log = site.log ++ new ∧
    ∃ d ∈ new, d.subscription ∈ site.bus.ids.1 ∧ d.refusal = some fault

namespace Subscription

variable {model : Model} {raised : Raised} {fault : Fault}

/-- Telling of what can be told fails only if a listener refuses. -/
theorem refused_tell {s : Subscription} (hc : raised.change.Tellable model.types)
    (h : (s.tell model raised).fault = some fault) :
    ∃ d ∈ (s.tell model raised).deliveries, d.subscription = s.id ∧ d.refusal = some fault := by
  obtain ⟨notice, subscriber, hnotice⟩ := s.subscriber.exists_notice hc
  rw [tell, hnotice] at h ⊢
  cases notice with
  | none => cases h
  | some notice => exact ⟨_, List.mem_cons_self, rfl, h⟩

/-- If telling fails, the refusal of a subscriber is among the deliveries. -/
theorem refused_tellAll {l : List Subscription} (hc : raised.change.Tellable model.types)
    (h : (tellAll model raised l).fault = some fault) :
    ∃ d ∈ (tellAll model raised l).deliveries,
      d.subscription ∈ l.map (·.id) ∧ d.refusal = some fault := by
  induction l with
  | nil => cases h
  | cons s rest ih =>
    rw [tellAll] at h ⊢
    -- The telling stops at the first subscriber that refuses.
    cases hfirst : (s.tell model raised).fault with
    | some fault' =>
      simp only [hfirst, Option.some.injEq] at h ⊢
      subst h
      obtain ⟨d, hd, hid, hrefusal⟩ := refused_tell hc hfirst
      exact ⟨d, hd, hid ▸ List.mem_cons_self, hrefusal⟩
    | none =>
      simp only [hfirst] at h ⊢
      obtain ⟨d, hd, hid, hrefusal⟩ := ih h
      exact ⟨d, List.mem_append_right _ hd, List.mem_cons_of_mem _ hid, hrefusal⟩

end Subscription

namespace Site

variable {site site' : Site} {raised : Raised} {all : List Raised} {fault : Fault}

/-- A refusal after some deliveries is a refusal from before them as well. -/
theorem Refused.behind {site₀ : Site} {new : List Delivery} (h : site.Refused site' fault)
    (hlog : site.log = site₀.log ++ new) (hids : site.bus.ids = site₀.bus.ids) :
    site₀.Refused site' fault := by
  obtain ⟨later, hlater, d, hd, hid, hrefusal⟩ := h
  refine ⟨new ++ later, ?_, d, List.mem_append_right _ hd, hids ▸ hid, hrefusal⟩
  rw [hlater, hlog, List.append_assoc]

namespace Action

/-- If emitting fails it is because a subscriber refuses. -/
theorem refused_of_emit (hc : raised.change.Tellable site.forest.types)
    (h : emit raised site = .error fault site') : site.Refused site' fault := by
  rw [emit] at h
  dsimp only at h
  split at h
  · next fault' hfault =>
    cases h
    have htell : raised.change.Tellable site.forest.model.types := hc
    exact ⟨_, rfl, Subscription.refused_tellAll htell hfault⟩
  · cases h

/-- What is emitted is noted in the log behind what is there. -/
theorem log_of_emit (h : emit raised site = .ok () site') :
    ∃ new, site'.log = site.log ++ new := by
  rw [emit] at h
  dsimp only at h
  split at h
  · cases h
  · cases h
    exact ⟨_, rfl⟩

/-- Telling of changes that can be told fails only if a listener refuses. -/
theorem refused_of_emitAll (hc : ∀ raised ∈ all, raised.change.Tellable site.forest.types)
    (h : all.forM emit site = .error fault site') : site.Refused site' fault := by
  induction all generalizing site with
  | nil => cases h
  | cons raised all ih =>
    obtain ⟨hfirst, hrest⟩ := List.forall_mem_cons.1 hc
    change (emit raised >>= fun _ => all.forM emit) site = _ at h
    -- Telling leaves the model alone, so the changes that follow can still be told.
    have hforest := keeps_forest_emit raised site
    have hids := keeps_ids_emit raised site
    cases hemit : emit raised site with
    | ok u site₁ =>
      rw [hemit] at hforest hids
      rw [bind_of_ok hemit] at h
      obtain ⟨new, hlog⟩ := log_of_emit hemit
      have htypes : site₁.forest.types = site.forest.types := congrArg Forest.types hforest
      exact (ih (htypes ▸ hrest) h).behind hlog hids
    | error fault' site₁ =>
      rw [bind_of_error hemit] at h
      cases h
      exact refused_of_emit hfirst hemit

end Action

end Site

/-! ## Messages -/

/-- A number that does not follow is refused for no slip. -/
theorem Tracker.safe_check {t : Tracker} {received : UInt64} : Safe (t.check received) := by
  rw [check]
  split
  · exact .ok _
  · exact .ite (fun _ => .ok _) fun _ => .ite (fun _ => .ok _) fun _ => .error not_false

/-- An event that is not looked at is refused for no slip. -/
theorem Follower.Action.safe_judge {number : UInt64} {follower follower' : Follower}
    {fault : Fault} (h : judge number follower = .error fault follower') : ¬fault.IsSlip := by
  rw [judge] at h
  split at h
  · cases h
  · next tracker _ =>
    split at h
    · cases h
    · next hcheck =>
      cases h
      exact Tracker.safe_check _ hcheck

namespace Site

variable {site site' : Site} {fault : Fault}

section Receiving

variable (hl : types.Lawful) (hf : site.forest.Sane types)

include hl hf

/-- What has been made can be told of. -/
theorem refused_of_follows {f' : Forest} {all : List Raised}
    (hfollows : site.forest.Follows f' (all.map (·.change)))
    (h : all.forM Action.emit { site with forest := f' } = .error fault site') :
    site.Refused site' fault := by
  have htypes : f'.types = types := hfollows.types.trans hf.proper.types
  have htell : ∀ raised ∈ all, raised.change.Tellable f'.types := fun raised hraised =>
    htypes ▸ hf.proper.tellable hl hfollows.accepts hfollows.trees _ (List.mem_map_of_mem hraised)
  -- What has been handed over and who has subscribed is the same with the other forest.
  have hrefused : ({ site with forest := f' } : Site).Refused site' fault :=
    Action.refused_of_emitAll htell h
  exact hrefused

/-- A command is refused for no slip, or because a subscriber refuses. -/
theorem receiveCommand_error {participation : ParticipationId} {message : CommandMessage}
    (h : Action.receiveCommand participation message site = .error fault site') :
    ¬fault.IsSlip ∨ site.Refused site' fault := by
  have hr := reads_commands participation
  -- The message fails as its parts are made, or as a subscriber is told.
  cases hall : Forest.Action.applyAll (CommandPart.toRaised participation) message.parts
    site.forest with
  | error fault' f' =>
    rw [Action.receiveCommand_of_error hall] at h
    cases h
    exact .inl (Forest.Action.safe_applyAll hl hr (fun _ part hf' =>
      part.safe_read hl participation hf') hf hall)
  | ok all f' =>
    rw [Action.receiveCommand_of_ok hall] at h
    cases hemit : all.forM Action.emit { site with forest := f' } with
    | ok u site₁ =>
      rw [bind_of_ok hemit] at h
      cases h
    | error fault' site₁ =>
      rw [bind_of_error hemit] at h
      cases h
      exact .inr (refused_of_follows hl hf (.of_applyAll hr hf.proper.wellFormed hall) hemit)

/-- An event is refused for no slip, or because a subscriber refuses. -/
theorem receiveEvent_error {tracker tracker' : Option Tracker} {message : SequencedEvent}
    (h : Follower.Action.receiveEvent message ⟨site, tracker⟩ = .error fault ⟨site', tracker'⟩) :
    ¬fault.IsSlip ∨ site.Refused site' fault := by
  -- The number of the event decides whether it is looked at.
  rcases Follower.Action.judge_eq_or message.number ⟨site, tracker⟩ with
    ⟨_ | _, hjudge⟩ | ⟨fault', hjudge⟩
  · cases hall : Forest.Action.applyAll EventPart.toRaised message.event.parts site.forest with
    | error fault' f' =>
      rw [Follower.Action.receiveEvent_of_error hjudge hall] at h
      cases h
      exact .inl (Forest.Action.safe_applyAll hl reads_events (fun _ part hf' =>
        part.safe_read hl hf') hf hall)
    | ok all f' =>
      rw [Follower.Action.receiveEvent_of_ok hjudge hall] at h
      cases hemit : all.forM Action.emit { site with forest := f' } with
      | ok u site₁ =>
        rw [bind_of_ok (Follower.Action.onSite_of_ok hemit)] at h
        cases h
      | error fault' site₁ =>
        rw [bind_of_error (Follower.Action.onSite_of_error hemit)] at h
        cases h
        exact .inr
          (refused_of_follows hl hf (.of_applyAll reads_events hf.proper.wellFormed hall) hemit)
  · rw [Follower.Action.receiveEvent_of_duplicate hjudge] at h
    cases h
  · rw [Follower.Action.receiveEvent_of_gap hjudge] at h
    cases h
    exact .inl (Follower.Action.safe_judge hjudge)

end Receiving

/-- A site that comes to no slip, whatever messages it is handed and whatever is to be written. -/
structure Guarded (site : Site) : Prop where
  /-- All handles that are stored on nodes lie within the table of elements. -/
  issued : site.forest.nodes.Issued site.forest.types
  /-- A message that is handed to the receiver of commands is refused without a slip. -/
  commands : ∀ participation message fault site',
    Action.receive participation message site = .error fault site' →
      ¬fault.IsSlip ∨ site.Refused site' fault
  /-- So is one that is handed to a receiver of events, whatever it knows of earlier ones. -/
  events : ∀ tracker message fault site' tracker',
    Follower.Action.receive message ⟨site, tracker⟩ = .error fault ⟨site', tracker'⟩ →
      ¬fault.IsSlip ∨ site.Refused site' fault
  /-- What a part of a command amounts to is made to its end. -/
  commanded : ∀ participation (part : CommandPart) raised,
    part.toRaised participation site.forest.model = .ok raised →
      ∃ f', Forest.Action.perform raised.change site.forest = .ok () f'
  /-- What a part of an event amounts to is made to its end. -/
  followed : ∀ (part : EventPart) raised, part.toRaised site.forest.model = .ok raised →
    ∃ f', Forest.Action.perform raised.change site.forest = .ok () f'
  written : ∀ root, Safe (site.forest.model.chunk root)
  exported : ∀ root ∈ site.forest.partitions, ∃ chunk, site.forest.model.chunk root = .ok chunk

/-- Whatever has come about comes to no slip. -/
theorem Reachable.guarded {languages : List Language} {past : List Checkpoint}
    {made : List Change} (htypes : TypeRegistry.registerAll .empty languages = .ok types)
    (h : Site.Reachable types site past made) : site.Guarded := by
  have hl := TypeRegistry.lawful_of_registerAll htypes
  have hf := h.sane htypes
  have hwell := hf.proper.wellFormed
  obtain rfl := hf.proper.types
  have hissued := hf.issued
  refine ⟨hissued, ?_, ?_, ?_, ?_, Model.safe_chunk hissued, fun root hroot => ?_⟩
  · intro participation message fault site' herror
    cases message with
    | command message => exact receiveCommand_error hl hf herror
    | _ =>
      -- All other messages are refused as they are.
      cases herror
      exact .inl not_false
  · intro tracker message fault site' tracker' herror
    cases message with
    | event message => exact receiveEvent_error hl hf herror
    | _ =>
      cases herror
      exact .inl not_false
  · intro participation part raised hpart
    exact Forest.Action.exists_perform (reads_commands participation) hf hpart
  · intro part raised hpart
    exact Forest.Action.exists_perform reads_events hf hpart
  · exact Model.exists_chunk_of_mem (m := site.forest.model) hl hwell.treelike hf.conforming
      ((hwell.roots root).1 hroot).1

end Site

end DeltaForest
