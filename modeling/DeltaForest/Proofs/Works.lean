import DeltaForest.Proofs.Telling

/-!
# Work at a site

The work at a site is to commit what planners come to and to receive commands. If no listener
refuses, each work makes changes and tells all subscribers of them, or it makes none and tells
nobody (`Work.advances`). The changes that work makes are accepted by the forest one after the
other, so that a run of works is followed change by change (`Forest.Follows.trans`).
-/

namespace DeltaForest

open Protocol

variable {types : TypeRegistry}

/-- Commits the change that a planner comes to, if it comes to one. -/
def Site.Action.commitBy (planner : Model → Except Fault Change) : Site.Action Raised := do
  commit (← onForest (.ask (planner ·.model)))

section CommitBy

variable {planner : Model → Except Fault Change} {site : Site}

theorem Site.Action.commitBy_of_ok {c : Change} (h : planner site.forest.model = .ok c) :
    commitBy planner site = commit c site := by
  simp [commitBy, onForest, Forest.Action.ask, h, bind, EStateM.bind]

theorem Site.Action.commitBy_of_error {fault : Fault}
    (h : planner site.forest.model = .error fault) :
    commitBy planner site = .error fault site := by
  simp [commitBy, onForest, Forest.Action.ask, h, bind, EStateM.bind]

end CommitBy

/-- What is done at a site. -/
inductive Work
  | commit (planner : Model → Except Fault Change)
  | receive (participation : ParticipationId) (message : CommandMessage)

namespace Work

/-- The site after work has been done, successfully or not. -/
def after (site : Site) : Work → Site
  | commit planner => stateAfter (Site.Action.commitBy planner site)
  | receive participation message =>
    stateAfter (Site.Action.receiveCommand participation message site)

/-- The changes that work raises. -/
def raised (site : Site) : Work → List Raised
  | commit planner =>
    match Site.Action.commitBy planner site with
    | .ok raised _ => [raised]
    | .error _ _ => []
  | receive participation message =>
    match Site.Action.receiveCommand participation message site with
    | .ok all _ => all
    | .error _ _ => []

/-- The subtrees that a planner has put together. -/
def incoming (site : Site) : Work → List Subtree
  | commit planner =>
    match planner site.forest.model with
    | .ok c => c.incoming
    | .error _ => []
  | receive .. => []

end Work

namespace Site

/-- The site after works, one after the other. -/
def afterAll (site : Site) (works : List Work) : Site := works.foldl Work.after site

/-- The changes that works raise, one after the other. -/
def raisedBy (site : Site) : List Work → List Raised
  | [] => []
  | work :: works => work.raised site ++ (work.after site).raisedBy works

/-- All that planners put together on the way can be had. -/
def Admits (site : Site) : List Work → Prop
  | [] => True
  | work :: works => (∀ tree ∈ work.incoming site, tree.Obtainable) ∧ (work.after site).Admits works

/-- From one site to the next some changes have been made, and all subscribers have been told. -/
structure Advances (site site' : Site) (all : List Raised) : Prop where
  follows : site.forest.Follows site'.forest (all.map (·.change))
  willing : site'.bus.Willing
  told : ∃ new, site'.log = site.log ++ new ∧ ∀ id s, site.bus.Has id s →
    site'.bus.Has id (s.nextAll site'.forest.model all) ∧
      Delivery.noticesOf id new = s.noticesAll site'.forest.model all

theorem advances_self {site : Site} (h : site.bus.Willing) : site.Advances site [] where
  follows := .same _
  willing := h
  told := ⟨[], (List.append_nil _).symm, fun _ _ hs => ⟨hs, rfl⟩⟩

end Site

/-- What comes about is as it should be. -/
theorem Site.Reachable.proper {site : Site} {past : List Checkpoint} {made : List Change}
    (h : Site.Reachable types site past made) : site.forest.Proper types :=
  ⟨h.typed, h.sound.wellFormed, h.sound.types⟩

/-! ## Changes that can be told -/

namespace Forest

variable {f : Forest} {cs : List Change}

/-- What a forest accepts can be told. -/
theorem Proper.tellable (hl : types.Lawful) (hf : f.Proper types) (ha : f.Accepts cs)
    (htrees : BringsTrees cs) : ∀ c ∈ cs, c.Tellable types := by
  induction cs generalizing f with
  | nil => exact List.forall_mem_nil _
  | cons c cs ih =>
    obtain ⟨hc, hcs⟩ := ha
    obtain ⟨hfirst, hrest⟩ := List.forall_mem_cons.1 htrees
    obtain ⟨command, hcommand, -⟩ := exists_command hl hf hc hfirst
    obtain ⟨event, hevent, -⟩ := exists_event hl hf hc hfirst
    exact List.forall_mem_cons.2
      ⟨⟨⟨command, hcommand⟩, event, hevent⟩, ih (hf.changed hc hfirst) hcs hrest⟩

theorem Follows.proper {f' : Forest} (hf : f.Proper types) (h : f.Follows f' cs) :
    f'.Proper types := by
  obtain ⟨n, rfl⟩ := h.becomes
  obtain ⟨htyped, hwell, htypes⟩ := hf.changedBy h.accepts h.trees
  exact ⟨htyped, ⟨hwell.treelike, hwell.distinct, hwell.roots⟩, htypes⟩

theorem changedBy_renumbered (n : Nat) :
    ({ f with nextLocal := n } : Forest).changedBy cs = { f.changedBy cs with nextLocal := n } := by
  induction cs generalizing f with
  | nil => rfl
  | cons c cs ih => exact ih (f := f.changed c)

theorem accepts_renumbered (n : Nat) :
    ({ f with nextLocal := n } : Forest).Accepts cs ↔ f.Accepts cs := by
  induction cs generalizing f with
  | nil => rfl
  | cons c cs ih => exact and_congr_right fun _ => ih (f := f.changed c)

theorem Follows.trans {f' f'' : Forest} {cs' : List Change} (h : f.Follows f' cs)
    (h' : f'.Follows f'' cs') : f.Follows f'' (cs ++ cs') := by
  obtain ⟨n, rfl⟩ := h.becomes
  obtain ⟨n', rfl⟩ := h'.becomes
  refine ⟨accepts_append.2 ⟨h.accepts, (accepts_renumbered n).1 h'.accepts⟩,
    List.forall_mem_append.2 ⟨h.trees, h'.trees⟩, n', ?_⟩
  rw [changedBy_renumbered, changedBy_append]

end Forest

namespace Site

variable {site site' : Site} {all : List Raised}

theorem Action.emit_of_emitAll {raised : Raised}
    (h : [raised].forM Action.emit site = .ok () site') :
    Action.emit raised site = .ok () site' := by
  change (Action.emit raised >>= fun _ => pure ()) site = _ at h
  cases hemit : Action.emit raised site with
  | ok u site'' =>
    rw [bind_of_ok hemit] at h
    exact h
  | error fault site'' =>
    rw [bind_of_error hemit] at h
    cases h

/-- Once changes have been made, all subscribers can be told of them. -/
theorem emitAll_of_follows (hl : types.Lawful) (hf : site.forest.Proper types)
    (hw : site.bus.Willing) {f' : Forest} (h : site.forest.Follows f' (all.map (·.change))) :
    all.forM Action.emit { site with forest := f' } =
      .ok () ({ site with forest := f' }.toldAll all) := by
  have htypes : f'.types = types := h.types.trans hf.types
  have htell : ∀ raised ∈ all, raised.change.Tellable f'.types := fun raised hraised =>
    htypes ▸ hf.tellable hl h.accepts h.trees _ (List.mem_map_of_mem hraised)
  have hw' : ({ site with forest := f' } : Site).bus.Willing := hw
  exact Action.emitAll_eq hw' htell

theorem exists_told (hl : types.Lawful) (hf : site.forest.Proper types) (hw : site.bus.Willing)
    {f' : Forest} (hfollows : site.forest.Follows f' (all.map (·.change))) :
    ∃ site', all.forM Action.emit { site with forest := f' } = .ok () site' ∧
      site'.forest = f' ∧ site.Advances site' all := by
  obtain ⟨new, hlog, htold⟩ := toldAll_log { site with forest := f' } all
  refine ⟨_, emitAll_of_follows hl hf hw hfollows, forest_toldAll, ?_⟩
  refine ⟨?_, willing_toldAll hw, new, hlog, ?_⟩
  · rwa [forest_toldAll]
  · rwa [forest_toldAll]

section Single

variable {raised : Raised}

/-- A single part that is understood is made, and can be told of. -/
theorem exists_received {α : Type} {toRaised : Model → α → Except Fault Raised}
    (hr : Reads toRaised) (hl : types.Lawful) (hf : site.forest.Proper types)
    (hw : site.bus.Willing) {part : α} (hpart : toRaised site.forest.model part = .ok raised) :
    Forest.Action.applyAll toRaised [part] site.forest =
        .ok [raised] (site.forest.changed raised.change) ∧
      ∃ site', [raised].forM Action.emit
          { site with forest := site.forest.changed raised.change } = .ok () site' ∧
        site'.forest = site.forest.changed raised.change ∧ site'.forest.Proper types ∧
        site'.bus.Willing := by
  obtain ⟨hreplan, htree, -⟩ := Forest.Action.apply_of_reads hr hf.wellFormed hpart
  have hfollows : site.forest.Follows (site.forest.changed raised.change)
      ([raised].map (·.change)) := .of_replan hreplan htree
  -- Everybody is willing, so everybody is told.
  obtain ⟨site', hemit, hforest, hadvances⟩ := exists_told hl hf hw hfollows
  exact ⟨Forest.Action.applyAll_singleton_of_ok hr hf.wellFormed hpart, site', hemit, hforest,
    hadvances.follows.proper hf, hadvances.willing⟩

/-- A command of one part that is understood is accepted. -/
theorem exists_receiveCommand {participation : ParticipationId} (hl : types.Lawful)
    (hf : site.forest.Proper types) (hw : site.bus.Willing) {part : CommandPart}
    (hpart : part.toRaised participation site.forest.model = .ok raised) :
    ∃ site', Action.receiveCommand participation (.single part) site = .ok [raised] site' ∧
      site'.forest = site.forest.changed raised.change ∧ site'.forest.Proper types ∧
      site'.bus.Willing := by
  obtain ⟨hall, site', hemit, hreceived⟩ :=
    exists_received (reads_commands participation) hl hf hw hpart
  refine ⟨site', ?_, hreceived⟩
  rw [Action.receiveCommand_of_ok hall, bind_of_ok hemit]
  rfl

/-- An event of one part that is understood is accepted when its time has come. -/
theorem exists_receiveEvent (hl : types.Lawful) (hf : site.forest.Proper types)
    (hw : site.bus.Willing) {part : EventPart}
    (hpart : part.toRaised site.forest.model = .ok raised) (message : SequencedEvent)
    (hmessage : message.event.parts = [part]) {tracker : Option Tracker}
    (hjudge : Follower.Action.judge message.number ⟨site, tracker⟩ =
      .ok .accept ⟨site, tracker⟩) :
    ∃ site', Follower.Action.receiveEvent message ⟨site, tracker⟩ =
        .ok [raised] ⟨site', tracker.map fun _ => .behind message.number⟩ ∧
      site'.forest = site.forest.changed raised.change ∧ site'.forest.Proper types ∧
      site'.bus.Willing := by
  obtain ⟨hall, site', hemit, hreceived⟩ := exists_received reads_events hl hf hw hpart
  refine ⟨site', ?_, hreceived⟩
  rw [Follower.Action.receiveEvent_of_ok hjudge (hmessage ▸ hall),
    bind_of_ok (Follower.Action.onSite_of_ok hemit)]
  rfl

end Single

end Site

namespace Work

variable {site : Site} {work : Work}

section Advances

variable (hl : types.Lawful) (hf : site.forest.Proper types) (hw : site.bus.Willing)

include hl hf hw

/-- A commit makes the change that has been planned and tells of it, or does nothing. -/
theorem advances_commit {planner : Model → Except Fault Change}
    (htree : ∀ tree ∈ (commit planner).incoming site, tree.IsTree) :
    site.Advances ((commit planner).after site) ((commit planner).raised site) := by
  cases hplan : planner site.forest.model with
  | error fault =>
    rw [after, raised, Site.Action.commitBy_of_error hplan]
    exact Site.advances_self hw
  | ok c =>
    -- What has been planned is applied, under the number that is next.
    rw [incoming, hplan] at htree
    have hfollows := Call.follows_apply hf.wellFormed htree
    rw [after, raised, Site.Action.commitBy_of_ok hplan]
    cases happly : Forest.Action.apply c site.forest with
    | error fault f' =>
      obtain rfl := Forest.Action.apply_error hf.wellFormed.treelike htree happly
      rw [Site.Action.commit_of_error happly]
      exact Site.advances_self hw
    | ok u f' =>
      rw [happly] at hfollows
      let raised : Raised := ⟨.here site.forest.nextLocal, c⟩
      have hmade : site.forest.Follows { f' with nextLocal := site.forest.nextLocal + 1 }
          ([raised].map (·.change)) := hfollows.renumbered _
      obtain ⟨site', hemit, -, hadvances⟩ := Site.exists_told hl hf hw hmade
      rw [Site.Action.commit_of_ok happly,
        bind_of_ok (Site.Action.emit_of_emitAll hemit)]
      exact hadvances

/-- A message makes what all its parts amount to and tells of it, or does nothing. -/
theorem advances_receive {participation : ParticipationId} {message : CommandMessage} :
    site.Advances ((receive participation message).after site)
      ((receive participation message).raised site) := by
  rw [after, raised]
  cases hall : Forest.Action.applyAll (CommandPart.toRaised participation) message.parts
    site.forest with
  | error fault f' =>
    obtain rfl := Forest.Action.applyAll_error (reads_commands participation) hf.wellFormed hall
    rw [Site.Action.receiveCommand_of_error hall]
    exact Site.advances_self hw
  | ok all f' =>
    obtain ⟨site', hemit, -, hadvances⟩ := Site.exists_told hl hf hw
      (.of_applyAll (reads_commands participation) hf.wellFormed hall)
    rw [Site.Action.receiveCommand_of_ok hall, bind_of_ok hemit]
    exact hadvances

/-- Work makes changes and tells all subscribers of them, or does nothing. -/
theorem advances (htree : ∀ tree ∈ work.incoming site, tree.IsTree) :
    site.Advances (work.after site) (work.raised site) := by
  cases work with
  | commit planner => exact advances_commit hl hf hw htree
  | receive participation message => exact advances_receive hl hf hw

end Advances

/-- A commit raises at most one change, and that was made here. -/
theorem raised_commit (planner : Model → Except Fault Change) (site : Site) :
    (commit planner).raised site = [] ∨
      ∃ n c, (commit planner).raised site = [⟨.here n, c⟩] := by
  rw [raised]
  -- A commit raises its change unless planning, applying or telling fails.
  cases hplan : planner site.forest.model with
  | error fault =>
    rw [Site.Action.commitBy_of_error hplan]
    exact .inl rfl
  | ok c =>
    rw [Site.Action.commitBy_of_ok hplan]
    cases happly : Forest.Action.apply c site.forest with
    | error fault f' =>
      rw [Site.Action.commit_of_error happly]
      exact .inl rfl
    | ok u f' =>
      rw [Site.Action.commit_of_ok happly]
      cases hemit : Site.Action.emit ⟨.here site.forest.nextLocal, c⟩
        { site with forest := { f' with nextLocal := site.forest.nextLocal + 1 } } with
      | error fault site' =>
        rw [bind_of_error hemit]
        exact .inl rfl
      | ok u site' =>
        rw [bind_of_ok hemit]
        exact .inr ⟨_, _, rfl⟩

end Work

end DeltaForest
