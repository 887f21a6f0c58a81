import DeltaForest.Proofs.Works

/-!
# Edits made again elsewhere

Two sites start with the same nodes. What is committed at the first one is published as commands,
and these are received, one after the other, at the second one. Each of them is accepted, and the
nodes look the same in the end (`Site.Reachable.published`).

A command says less than the change that it is for: what was there before, and where a moved node
came from, are left out. The two sites are therefore kept in step (`Site.Mirrors`), and each
command is understood at the second one in the state in which the change was made at the first one.
-/

namespace DeltaForest

open Protocol

/-- The command that is told, if one is. -/
def Notice.command? : Notice → Option CommandPart
  | .command part => some part
  | _ => none

/-- The commands that have been handed over under an id. -/
def Delivery.commandsOf (id : Nat) (deliveries : List Delivery) : List CommandPart :=
  (noticesOf id deliveries).filterMap Notice.command?

theorem Delivery.commandsOf_append {id : Nat} (ds ds' : List Delivery) :
    commandsOf id (ds ++ ds') = commandsOf id ds ++ commandsOf id ds' := by
  rw [commandsOf, noticesOf_append, List.filterMap_append]
  rfl

namespace Site

/-- From one site to the next commands have been received, each in a message of its own, and every
    one of them has been accepted. -/
inductive Obeys (participation : ParticipationId) : Site → List CommandPart → Site → Prop
  | done (site : Site) : Obeys participation site [] site
  | step {site site' site'' : Site} {part : CommandPart} {parts : List CommandPart}
    {all : List Raised} :
    Action.receiveCommand participation (.single part) site = .ok all site' →
      Obeys participation site' parts site'' → Obeys participation site (part :: parts) site''

variable {participation : ParticipationId}

theorem Obeys.append {site site' site'' : Site} {parts parts' : List CommandPart}
    (h : Obeys participation site parts site') (h' : Obeys participation site' parts' site'') :
    Obeys participation site (parts ++ parts') site'' := by
  induction h with
  | done => exact h'
  | step hfirst _ ih => exact .step hfirst (ih h')

end Site

variable {types : TypeRegistry} {id : Nat} {participation : ParticipationId}

/-- A change made here is published as its command. -/
theorem Subscriber.exists_published (ids : CommandIds) (n : Nat) {model : Model} {c : Change}
    {command : Command} (h : Command.ofChange model.types c = .ok command) :
    ∃ part ids', (publisher ids).notice model ⟨.here n, c⟩ =
      .ok (some (.command part), publisher ids') ∧ part.command = command := by
  rw [notice]
  simp only [Origin.isHere, if_true, h, ok_bind]
  exact ⟨_, _, rfl, rfl⟩

namespace Site

/-- The second site is where the first one is, and the first one publishes what is committed. -/
structure Mirrors (types : TypeRegistry) (id : Nat) (site mirror : Site) : Prop where
  proper : site.forest.Proper types
  willing : site.bus.Willing
  publishes : ∃ ids, site.bus.Has id (.publisher ids)
  mirrorProper : mirror.forest.Proper types
  mirrorWilling : mirror.bus.Willing
  alike : site.forest.Alike mirror.forest

variable {site mirror : Site} {planner : Model → Except Fault Change}

/-- A change that is made here is published as a command, which the mirror understands as one that
    says the same. -/
theorem Mirrors.exists_obeyed (participation : ParticipationId) (hl : types.Lawful)
    (h : site.Mirrors types id mirror) {c : Change} (hreplan : site.forest.model.replan c = .ok c)
    (htree : ∀ tree ∈ c.incoming, tree.IsTree) (ids : CommandIds) (n : Nat) {model : Model}
    (hmodel : model.types = types) :
    ∃ part ids' all mirror', (Subscriber.publisher ids).notice model ⟨.here n, c⟩ =
        .ok (some (.command part), .publisher ids') ∧
      Action.receiveCommand participation (.single part) mirror = .ok all mirror' ∧
      (site.forest.changed c).Alike mirror'.forest ∧ mirror'.forest.Proper types ∧
      mirror'.bus.Willing := by
  obtain ⟨command, hcommand, c', hc', hsame⟩ := h.alike.relay_command hl h.proper hreplan htree
  obtain ⟨part, ids', hnotice, rfl⟩ := Subscriber.exists_published ids n
    (hmodel.symm ▸ hcommand : Command.ofChange model.types c = .ok command)
  have hpart : part.toRaised participation mirror.forest.model =
      .ok ⟨.commands [⟨participation, part.id⟩], c'⟩ :=
    CommandPart.toRaised_eq_ok.2 ⟨c', hc', rfl⟩
  obtain ⟨mirror', hreceive, hmirror, hproper, hwilling⟩ :=
    exists_receiveCommand hl h.mirrorProper h.mirrorWilling hpart
  exact ⟨part, ids', _, mirror', hnotice, hreceive, hmirror ▸ h.alike.changed hsame, hproper,
    hwilling⟩

/-- What is published of one commit leads the mirror to where the site is. -/
theorem Mirrors.commit (participation : ParticipationId) (hl : types.Lawful)
    (h : site.Mirrors types id mirror)
    (htree : ∀ tree ∈ (Work.commit planner).incoming site, tree.IsTree) :
    ∃ new mirror', ((Work.commit planner).after site).log = site.log ++ new ∧
      Obeys participation mirror (Delivery.commandsOf id new) mirror' ∧
      ((Work.commit planner).after site).Mirrors types id mirror' := by
  obtain ⟨ids, hhas⟩ := h.publishes
  obtain ⟨hfollows, hwilling, new, hlog, htold⟩ := Work.advances hl h.proper h.willing htree
  obtain ⟨hhas', hnotices⟩ := htold id _ hhas
  have hproper := hfollows.proper h.proper
  generalize (Work.commit planner).after site = site' at *
  obtain ⟨n', hforest⟩ := hfollows.becomes
  rcases Work.raised_commit planner site with hraised | ⟨n, c, hraised⟩
  · -- Nothing has been made, and nothing is published.
    rw [hraised] at hforest hhas' hnotices
    rw [List.map_nil] at hforest
    refine ⟨new, mirror, hlog, ?_, hproper, hwilling, ⟨ids, hhas'⟩, h.mirrorProper,
      h.mirrorWilling, ?_⟩
    · rw [Delivery.commandsOf, hnotices]
      exact .done mirror
    · rw [hforest]
      exact ⟨h.alike.types, h.alike.nodes, h.alike.partitions⟩
  · -- The change is published, and the mirror obeys.
    rw [hraised] at hforest hhas' hnotices hfollows
    obtain ⟨⟨hreplan, -⟩, htrees, -⟩ := hfollows
    have hmodel : site'.forest.model.types = types := hproper.types
    obtain ⟨part, ids', all, mirror', hnotice, hreceive, halike, hmirrorProper, hmirrorWilling⟩ :=
      h.exists_obeyed participation hl hreplan (List.forall_mem_singleton.1 htrees) ids n hmodel
    refine ⟨new, mirror', hlog, ?_, hproper, hwilling, ⟨ids', ?_⟩, hmirrorProper, hmirrorWilling,
      ?_⟩
    · rw [Delivery.commandsOf, hnotices, Subscriber.noticesAll, Subscriber.notices, hnotice]
      exact .step hreceive (.done mirror')
    · rw [Subscriber.nextAll, List.foldl_cons, Subscriber.next, hnotice] at hhas'
      exact hhas'
    · rw [hforest]
      exact ⟨halike.types, halike.nodes, halike.partitions⟩

/-- What is published of commits, one after the other, leads the mirror to where the site is. -/
theorem Mirrors.commitAll (participation : ParticipationId) (hl : types.Lawful)
    (planners : List (Model → Except Fault Change)) (h : site.Mirrors types id mirror)
    (hadmits : site.Admits (planners.map .commit)) :
    ∃ new mirror', (site.afterAll (planners.map .commit)).log = site.log ++ new ∧
      Obeys participation mirror (Delivery.commandsOf id new) mirror' ∧
      (site.afterAll (planners.map .commit)).Mirrors types id mirror' := by
  -- The mirror that has obeyed the first commit mirrors the site that the others start from.
  induction planners generalizing site mirror with
  | nil => exact ⟨[], mirror, (List.append_nil _).symm, .done mirror, h⟩
  | cons planner planners ih =>
    obtain ⟨hfirst, hrest⟩ := hadmits
    obtain ⟨new, mirror', hlog, hobeys, hmirrors⟩ :=
      h.commit participation hl fun tree ht => (hfirst tree ht).isTree
    obtain ⟨new', mirror'', hlog', hobeys', hmirrors'⟩ := ih hmirrors hrest
    refine ⟨new ++ new', mirror'', ?_, ?_, hmirrors'⟩
    · exact hlog'.trans (by rw [hlog, List.append_assoc])
    · rw [Delivery.commandsOf_append]
      exact hobeys.append hobeys'

/-- The commands that are published of a run of commits, successful or not, are all accepted by a
    site that has started from the same nodes, and in the end the nodes of the two look the same.
    -/
theorem Reachable.published {languages : List Language}
    (htypes : TypeRegistry.registerAll .empty languages = .ok types)
    {past past' : List Checkpoint} {made made' : List Change}
    (h : Site.Reachable types site past made) (hmirror : Site.Reachable types mirror past' made')
    (hpartitions : site.forest.partitions = mirror.forest.partitions)
    (hnodes : site.forest.nodes = mirror.forest.nodes)
    (hwilling : site.bus.Willing) (hmirrorWilling : mirror.bus.Willing)
    {ids : CommandIds} {listener : Listener}
    (hpublisher : ⟨id, .publisher ids, listener⟩ ∈ site.bus.subscriptions)
    (planners : List (Model → Except Fault Change))
    (hadmits : site.Admits (planners.map .commit)) (participation : ParticipationId) :
    ∃ mirror', Obeys participation mirror
        (Delivery.commandsOf id
          ((site.afterAll (planners.map .commit)).log.drop site.log.length)) mirror' ∧
      (site.afterAll (planners.map .commit)).forest.partitions = mirror'.forest.partitions ∧
      (site.afterAll (planners.map .commit)).forest.nodes.Alike mirror'.forest.nodes := by
  -- Both start with the same nodes; from then on they only look alike.
  have halike : site.forest.Alike mirror.forest :=
    ⟨h.sound.types.trans hmirror.sound.types.symm, hnodes ▸ .refl _, hpartitions⟩
  obtain ⟨new, mirror', hlog, hobeys, hmirrors⟩ :=
    Mirrors.commitAll participation (TypeRegistry.lawful_of_registerAll htypes) planners
      ⟨h.proper, hwilling, ⟨ids, h.distinct.has hpublisher⟩, hmirror.proper, hmirrorWilling,
        halike⟩ hadmits
  refine ⟨mirror', ?_, hmirrors.alike.partitions, hmirrors.alike.nodes⟩
  rwa [hlog, List.drop_left]

end Site

/-! ## A library with a book -/

namespace Examples

/-- A site with a library and a book in it that publishes what is committed. -/
def publishing : Site :=
  Call.after stocked (.subscribe (.publisher ⟨"client", ⟨0⟩⟩) fun _ => none)

theorem reachable_publishing : Site.Reachable libraryTypes publishing [] [opening, shelving] :=
  .call (.subscribe (.publisher ⟨"client", ⟨0⟩⟩) fun _ => none) reachable_stocked
    (List.forall_mem_nil _)

/-- The succession of one book by another is made again elsewhere. -/
theorem published_succession : ∃ mirror', Site.Obeys ⟨"repository"⟩ stocked
      (Delivery.commandsOf 0 ((publishing.afterAll [.commit fun _ => .ok succession]).log.drop
        publishing.log.length)) mirror' ∧
    (publishing.afterAll [.commit fun _ => .ok succession]).forest.partitions =
      mirror'.forest.partitions ∧
    (publishing.afterAll [.commit fun _ => .ok succession]).forest.nodes.Alike
      mirror'.forest.nodes :=
  Site.Reachable.published registerAll_library reachable_publishing reachable_stocked rfl rfl
    (List.forall_mem_singleton.2 fun _ => rfl) (List.forall_mem_nil _)
    List.mem_cons_self [fun _ => .ok succession]
    ⟨List.forall_mem_singleton.2 (obtainable_of_leaf rfl), trivial⟩ ⟨"repository"⟩

end Examples

end DeltaForest
