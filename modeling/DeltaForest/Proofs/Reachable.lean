import DeltaForest.Examples.Shelf
import DeltaForest.Proofs.Steps

/-!
# What can come about

A site starts empty and is changed by calls: changes that somebody has put together, local commits,
commands and events from elsewhere, subscribers that come and go. A call may fail, and the site
goes on as the call has left it. At any time what there is may be noted, and later be gone back to.

The subtrees in changes that somebody has put together are not any lists of nodes. They have been
put together from nodes, read from a chunk, or taken out of a forest that has itself come about in
this way (`Subtree.Obtainable`, `Site.Reachable`).

Whatever has come about is well-formed (`Site.Reachable.wellFormed`).
-/

namespace DeltaForest

open Protocol

/-! ## Calls -/

/-- What can be asked of a site. -/
inductive Call
  | subscribe (subscriber : Subscriber) (refusal : Nat → Option Fault)
  | unsubscribe (id : Nat)
  /-- A change is made without telling anybody. -/
  | apply (c : Change)
  | commit (c : Change)
  | receive (participation : ParticipationId) (message : CommandMessage)
  /-- An event is received by somebody who knows of earlier ones what `tracker` says. -/
  | follow (tracker : Option Tracker) (message : SequencedEvent)

namespace Call

/-- The subtrees that the caller has put together. -/
def incoming : Call → List Subtree
  | apply c | commit c => c.incoming
  | _ => []

/-- The site after a call. -/
def after (site : Site) : Call → Site
  | subscribe subscriber refusal => { site with bus := (site.bus.subscribe subscriber refusal).2 }
  | unsubscribe id => { site with bus := (site.bus.unsubscribe id).2 }
  | apply c => stateAfter (Site.Action.onForest (.apply c) site)
  | commit c => stateAfter (Site.Action.commit c site)
  | receive participation message =>
    stateAfter (Site.Action.receiveCommand participation message site)
  | follow tracker message =>
    (stateAfter (Follower.Action.receiveEvent message ⟨site, tracker⟩)).site

/-- The changes that the parts of a message amount to, if all of them can be made. -/
def madeOf {α : Type} (toRaised : Model → α → Except Fault Raised) (parts : List α)
    (f : Forest) : List Change :=
  match Forest.Action.applyAll toRaised parts f with
  | .ok all _ => all.map (·.change)
  | .error _ _ => []

/-- The changes that a call makes. -/
def made (site : Site) : Call → List Change
  | subscribe .. | unsubscribe _ => []
  | apply c | commit c =>
    match Forest.Action.apply c site.forest with
    | .ok _ _ => [c]
    | .error _ _ => []
  | receive participation message =>
    madeOf (CommandPart.toRaised participation) message.parts site.forest
  | follow tracker message =>
    match Follower.Action.judge message.number ⟨site, tracker⟩ with
    | .ok .accept _ => madeOf EventPart.toRaised message.event.parts site.forest
    | _ => []

end Call

mutual

/-- Subtrees that can be had: put together from nodes, read from a chunk, or taken out of a
    forest. -/
inductive Subtree.Obtainable : Subtree → Prop
  | ofList {nodes : List Node} {s : Subtree} :
    Subtree.ofList nodes = .ok s → Subtree.Obtainable s
  | read {chunk : Chunk} {types : TypeRegistry} {known : NodeTable} {s : Subtree} :
    chunk.toSubtree types known = .ok s → Subtree.Obtainable s
  | collect {types : TypeRegistry} {site : Site} {past : List Checkpoint} {made : List Change}
    {root : NodeId} {s : Subtree} :
    Site.Reachable types site past made → site.forest.nodes.collect root = .ok s →
      Subtree.Obtainable s

/-- Sites with some types that can come about, with the checkpoints that have been noted and the
    changes that have been made on the way. -/
inductive Site.Reachable : TypeRegistry → Site → List Checkpoint → List Change → Prop
  | empty (types : TypeRegistry) : Site.Reachable types (.empty types) [] []
  | call {types : TypeRegistry} {site : Site} {past : List Checkpoint} {made : List Change}
    (call : Call) : Site.Reachable types site past made →
    (∀ tree ∈ call.incoming, Subtree.Obtainable tree) →
      Site.Reachable types (call.after site) past (made ++ call.made site)
  | note {types : TypeRegistry} {site : Site} {past : List Checkpoint} {made : List Change} :
    Site.Reachable types site past made →
      Site.Reachable types site (site.forest.checkpoint :: past) made
  | goBack {types : TypeRegistry} {site : Site} {past : List Checkpoint} {made : List Change}
    {c : Checkpoint} : Site.Reachable types site past made → c ∈ past →
      Site.Reachable types { site with forest := site.forest.restore c } past made

end

/-! ## What calls do to the forest -/

/-- A forest after changes that it accepts, apart from the number of the next change. -/
structure Forest.Follows (f f' : Forest) (cs : List Change) : Prop where
  accepts : f.Accepts cs
  trees : BringsTrees cs
  becomes : ∃ n, f' = { f.changedBy cs with nextLocal := n }

namespace Forest.Follows

variable {f f' : Forest} {cs : List Change} {c : Change}

/-- A forest follows itself without changes, whatever the next number. -/
theorem same (n : Nat) : f.Follows { f with nextLocal := n } [] :=
  ⟨trivial, List.forall_mem_nil _, n, rfl⟩

/-- Changes leave the types alone. -/
theorem types (h : f.Follows f' cs) : f'.types = f.types := by
  obtain ⟨n, rfl⟩ := h.becomes
  exact types_changedBy

/-- A well-formed forest stays so with changes that it accepts. -/
theorem wellFormed (h : f.WellFormed) (hf : f.Follows f' cs) : f'.WellFormed := by
  obtain ⟨n, rfl⟩ := hf.becomes
  have hchanged := h.changedBy hf.accepts hf.trees
  exact ⟨hchanged.treelike, hchanged.distinct, hchanged.roots⟩

/-- The number of the next change does not matter. -/
theorem renumbered (h : f.Follows f' cs) (n : Nat) : f.Follows { f' with nextLocal := n } cs := by
  obtain ⟨n', rfl⟩ := h.becomes
  exact ⟨h.accepts, h.trees, n, rfl⟩

/-- A change that planning comes to again is accepted. -/
theorem of_replan (h : f.model.replan c = .ok c) (htree : ∀ tree ∈ c.incoming, tree.IsTree) :
    f.Follows (f.changed c) [c] :=
  ⟨⟨h, trivial⟩, List.forall_mem_singleton.2 htree, f.nextLocal, rfl⟩

/-- A message that is accepted is made as what its parts amount to. -/
theorem of_applyAll {α : Type} {toRaised : Model → α → Except Fault Raised} (hr : Reads toRaised)
    (h : f.WellFormed) {parts : List α} {all : List Raised}
    (hall : Forest.Action.applyAll toRaised parts f = .ok all f') :
    f.Follows f' (all.map (·.change)) := by
  obtain ⟨haccepts, htrees, rfl⟩ := Forest.Action.applyAll_eq_ok hr h hall
  exact ⟨haccepts, htrees, (f.changedBy (all.map (·.change))).nextLocal, rfl⟩

/-- What every one of the changes keeps is kept. -/
theorem invariant {types : TypeRegistry} {P : NodeTable → Prop} {Q : Change → Prop}
    (hstep : ∀ (f : Forest) (c : Change), f.types = types → f.WellFormed → P f.nodes → Q c →
      f.model.replan c = .ok c → (∀ tree ∈ c.incoming, tree.IsTree) → P (c.outcome f.nodes))
    (hf : f.Follows f' cs) (htypes : f.types = types) (h : f.WellFormed) (hP : P f.nodes)
    (hQ : ∀ c ∈ cs, Q c) : P f'.nodes := by
  obtain ⟨haccepts, htrees, n, rfl⟩ := hf
  -- The number of the next change does not matter to the nodes.
  show P (f.changedBy cs).nodes
  induction cs generalizing f with
  | nil => exact hP
  | cons c cs ih =>
    obtain ⟨hc, hcs⟩ := haccepts
    obtain ⟨hfirst, hrest⟩ := List.forall_mem_cons.1 htrees
    obtain ⟨hQc, hQcs⟩ := List.forall_mem_cons.1 hQ
    exact ih htypes (h.changed (Model.fits_of_replan hc) hfirst)
      (hstep f c htypes h hP hQc hc hfirst) hQcs hcs hrest

end Forest.Follows

namespace Call

variable {site : Site} {call : Call}

/-- A message is made as a whole or not at all. -/
theorem follows_applyAll {α : Type} {toRaised : Model → α → Except Fault Raised}
    (hr : Reads toRaised) {f : Forest} (h : f.WellFormed) (parts : List α) :
    f.Follows (stateAfter (Forest.Action.applyAll toRaised parts f))
      (madeOf toRaised parts f) := by
  rw [madeOf]
  cases hall : Forest.Action.applyAll toRaised parts f with
  | ok all f' => exact .of_applyAll hr h hall
  | error fault f' =>
    obtain rfl := Forest.Action.applyAll_error hr h hall
    exact .same _

/-- A single change is made if planning comes to it again, and otherwise not at all. -/
theorem follows_apply {f : Forest} (h : f.WellFormed) {c : Change}
    (htree : ∀ tree ∈ c.incoming, tree.IsTree) :
    f.Follows (stateAfter (Forest.Action.apply c f))
      (match Forest.Action.apply c f with
      | .ok _ _ => [c]
      | .error _ _ => []) := by
  -- A change that is refused has changed nothing.
  cases happly : Forest.Action.apply c f with
  | ok u f' =>
    obtain ⟨hreplan, rfl⟩ := (Forest.Action.apply_eq_ok h.treelike htree).1 happly
    exact .of_replan hreplan htree
  | error fault f' =>
    obtain rfl := Forest.Action.apply_error h.treelike htree happly
    exact .same _

/-- Calls that are about the forest. The others are about the subscribers. -/
def AboutForest : Call → Prop
  | subscribe .. | unsubscribe _ => False
  | _ => True

/-- A call makes its changes first and then tells of them: whatever telling leaves alone is as if
    nobody had been told. -/
def TellsAfterwards (site : Site) (call : Call) : Prop :=
  ∃ f', site.forest.Follows f' (call.made site) ∧
    ∀ {γ : Type} {view : Site → γ},
      (∀ raised, Site.Action.Keeps view (Site.Action.emit raised)) →
        view (call.after site) = view { site with forest := f' }

/-- Whoever makes a change without a word tells nobody. -/
theorem tellsAfterwards_apply (h : site.forest.WellFormed) {c : Change}
    (htree : ∀ tree ∈ c.incoming, tree.IsTree) : (apply c).TellsAfterwards site := by
  have hfollows := follows_apply h htree
  refine ⟨_, hfollows, fun {γ view} _ => ?_⟩
  rw [after, Site.Action.onForest]
  cases Forest.Action.apply c site.forest <;> rfl

/-- A commit gives the change a number once it is made, and tells of it then. -/
theorem tellsAfterwards_commit (h : site.forest.WellFormed) {c : Change}
    (htree : ∀ tree ∈ c.incoming, tree.IsTree) : (commit c).TellsAfterwards site := by
  have hfollows := follows_apply h htree
  rw [TellsAfterwards, after, made]
  cases happly : Forest.Action.apply c site.forest with
  | ok u f' =>
    rw [happly] at hfollows
    rw [Site.Action.commit_of_ok happly]
    exact ⟨_, hfollows.renumbered _, fun hkeeps =>
      (hkeeps _).bind (fun _ => Site.Action.keeps_pure _) _⟩
  | error fault f' =>
    rw [happly] at hfollows
    rw [Site.Action.commit_of_error happly]
    exact ⟨f', hfollows, fun _ => rfl⟩

/-- The parts of a command are told of once all of them are made. -/
theorem tellsAfterwards_receive (h : site.forest.WellFormed) (participation : ParticipationId)
    (message : CommandMessage) : (receive participation message).TellsAfterwards site := by
  have hfollows := follows_applyAll (reads_commands participation) h message.parts
  rw [TellsAfterwards, after, made]
  cases hall : Forest.Action.applyAll (CommandPart.toRaised participation) message.parts
    site.forest with
  | ok all f' =>
    rw [hall] at hfollows
    rw [Site.Action.receiveCommand_of_ok hall]
    exact ⟨f', hfollows, fun hkeeps =>
      (Site.Action.keeps_emitAll hkeeps all).bind (fun _ => Site.Action.keeps_pure _) _⟩
  | error fault f' =>
    rw [hall] at hfollows
    rw [Site.Action.receiveCommand_of_error hall]
    exact ⟨f', hfollows, fun _ => rfl⟩

/-- The parts of an event are told of once all of them are made, if its number lets it be looked at
    in the first place. -/
theorem tellsAfterwards_follow (h : site.forest.WellFormed) (tracker : Option Tracker)
    (message : SequencedEvent) : (follow tracker message).TellsAfterwards site := by
  have hfollows := follows_applyAll reads_events h message.event.parts
  rw [TellsAfterwards, after, made]
  -- The event is the next one, has been seen, or leaves others out.
  rcases Follower.Action.judge_eq_or message.number ⟨site, tracker⟩ with
    ⟨_ | _, hjudge⟩ | ⟨fault, hjudge⟩
  · rw [hjudge]
    cases hall : Forest.Action.applyAll EventPart.toRaised message.event.parts site.forest with
    | ok all f' =>
      rw [hall] at hfollows
      rw [Follower.Action.receiveEvent_of_ok hjudge hall]
      exact ⟨f', hfollows, fun hkeeps => Follower.Action.view_emitAll hkeeps all⟩
    | error fault f' =>
      rw [hall] at hfollows
      rw [Follower.Action.receiveEvent_of_error hjudge hall]
      exact ⟨f', hfollows, fun _ => rfl⟩
  · rw [hjudge, Follower.Action.receiveEvent_of_duplicate hjudge]
    exact ⟨_, .same _, fun _ => rfl⟩
  · rw [hjudge, Follower.Action.receiveEvent_of_gap hjudge]
    exact ⟨_, .same _, fun _ => rfl⟩

/-- A call about the forest makes its changes first and then tells of them. -/
theorem tellsAfterwards (h : site.forest.WellFormed) (htree : ∀ tree ∈ call.incoming, tree.IsTree)
    (hcall : call.AboutForest) : call.TellsAfterwards site := by
  cases call with
  | subscribe | unsubscribe => exact hcall.elim
  | apply c => exact tellsAfterwards_apply h htree
  | commit c => exact tellsAfterwards_commit h htree
  | receive participation message => exact tellsAfterwards_receive h participation message
  | follow tracker message => exact tellsAfterwards_follow h tracker message

/-- After a call the forest is what the changes that the call makes have made of it. -/
theorem follows_after (h : site.forest.WellFormed)
    (htree : ∀ tree ∈ call.incoming, tree.IsTree) :
    site.forest.Follows (call.after site).forest (call.made site) := by
  cases call with
  | subscribe subscriber refusal => exact .same _
  | unsubscribe id => exact .same _
  | _ =>
    obtain ⟨f', hfollows, hview⟩ := tellsAfterwards h htree trivial
    rw [hview Site.Action.keeps_forest_emit]
    exact hfollows

end Call

/-! ## What is kept -/

/-- A site with some types whose forest is well-formed, as are those that it can go back to. -/
structure Site.Sound (types : TypeRegistry) (site : Site) (past : List Checkpoint) : Prop where
  types : site.forest.types = types
  wellFormed : site.forest.WellFormed
  past : ∀ c ∈ past, ∀ f : Forest, (f.restore c).WellFormed

mutual

/-- What can be had is a tree. -/
theorem Subtree.Obtainable.isTree {s : Subtree} : s.Obtainable → s.IsTree
  | .ofList h => Subtree.isTree_ofList h
  | .read h => Chunk.isTree_toSubtree h
  | .collect hsite h => NodeTable.isTree_collect h hsite.sound.wellFormed.treelike

/-- Whatever comes about is sound, by induction on how it has come about. -/
theorem Site.Reachable.sound {types : TypeRegistry} {site : Site} {past : List Checkpoint}
    {made : List Change} : Site.Reachable types site past made → site.Sound types past
  | .empty types => ⟨rfl, Forest.wellFormed_empty types, List.forall_mem_nil _⟩
  | .call call h hin =>
    have hsound := h.sound
    have hfollows := Call.follows_after hsound.wellFormed fun tree ht => (hin tree ht).isTree
    ⟨hfollows.types.trans hsound.types, hfollows.wellFormed hsound.wellFormed, hsound.past⟩
  | .note h =>
    have hsound := h.sound
    have hwell := hsound.wellFormed
    ⟨hsound.types, hwell, List.forall_mem_cons.2
      ⟨fun _ => ⟨hwell.treelike, hwell.distinct, hwell.roots⟩, hsound.past⟩⟩
  | .goBack h hc =>
    have hsound := h.sound
    ⟨hsound.types, hsound.past _ hc _, hsound.past⟩

end

/-- What holds of no nodes at all, and is kept by every accepted change of some sort, holds of
    whatever comes about by changes of that sort. -/
theorem Site.Reachable.invariant {P : NodeTable → Prop} {Q : Change → Prop} (hempty : P ∅)
    {types : TypeRegistry} {site : Site} {past : List Checkpoint} {made : List Change} :
    Site.Reachable types site past made →
    (∀ (f : Forest) (c : Change), f.types = types → f.WellFormed → P f.nodes → Q c →
      f.model.replan c = .ok c → (∀ tree ∈ c.incoming, tree.IsTree) → P (c.outcome f.nodes)) →
    (∀ c ∈ made, Q c) → P site.forest.nodes ∧ ∀ c ∈ past, P c.nodes
  | .empty _, _, _ => ⟨hempty, List.forall_mem_nil _⟩
  | .call _ h hin, hstep, hmade =>
    have hsound := h.sound
    have hbefore := h.invariant hempty hstep fun c hc => hmade c (List.mem_append_left _ hc)
    have hfollows := Call.follows_after hsound.wellFormed fun tree ht => (hin tree ht).isTree
    ⟨hfollows.invariant hstep hsound.types hsound.wellFormed hbefore.1 fun c hc =>
      hmade c (List.mem_append_right _ hc), hbefore.2⟩
  | .note h, hstep, hmade =>
    have hbefore := h.invariant hempty hstep hmade
    ⟨hbefore.1, List.forall_mem_cons.2 hbefore⟩
  | .goBack h hc, hstep, hmade =>
    have hbefore := h.invariant hempty hstep hmade
    ⟨hbefore.2 _ hc, hbefore.2⟩

/-! ## The nodes of a forest are trees -/

/-- Nodes that hang together as trees, with the partitions as their roots. -/
structure Forest.Rooted (f : Forest) : Prop where
  /-- Every node is found by its id. -/
  keyed : ∀ (k : NodeId) (n : Node), f.nodes[k]? = some n → n.id = k
  /-- What a node owns is there and has that node above it. -/
  owned : ∀ (k : NodeId) (n : Node), f.nodes[k]? = some n → ∀ child ∈ n.owned,
    ∃ c, f.nodes[child]? = some c ∧ c.parent = some k
  /-- The node above owns what is below it at one place only. -/
  once : ∀ (k : NodeId) (n : Node) (p : NodeId), f.nodes[k]? = some n → n.parent = some p →
    ∃ above, f.nodes[p]? = some above ∧ above.owned.count k = 1
  /-- The links upwards come to an end. -/
  ends : ∀ (k : NodeId) (n : Node), f.nodes[k]? = some n →
    ∃ top r, Above f.nodes.above? top k ∧ f.nodes[top]? = some r ∧ r.parent = none
  /-- The partitions are listed once each. -/
  distinct : f.partitions.Nodup
  /-- The partitions are the nodes without one above. -/
  roots : ∀ k, k ∈ f.partitions ↔ ∃ n, f.nodes[k]? = some n ∧ n.parent = none

/-- From every node one comes to a node without one above. -/
theorem NodeTable.Treelike.exists_top {t : NodeTable} (h : t.Treelike) {k : NodeId} (hk : k ∈ t) :
    ∃ top, Above t.above? top k ∧ t.IsTop top := by
  induction h.grounded k with
  | top htop => exact ⟨_, .self, hk, htop⟩
  | step hp _ ih =>
    obtain ⟨top, habove, htop⟩ := ih (h.mem_of_above? hp).2
    exact ⟨top, .step hp habove, htop⟩

/-- A well-formed forest hangs together as trees. -/
theorem Forest.WellFormed.toRooted {f : Forest} (h : f.WellFormed) : f.Rooted where
  keyed := h.treelike.keyed
  owned k n hn child hchild :=
    NodeTable.exists_of_above? (h.treelike.above?_of_owned hn hchild)
  once k n p hn hp :=
    h.treelike.count_owned_of_above? ((NodeTable.above?_eq hn).trans hp)
  ends k n hn := by
    obtain ⟨top, habove, htop⟩ := h.treelike.exists_top (mem_of_lookup hn)
    obtain ⟨r, hr, hparent⟩ := NodeTable.isTop_iff.1 htop
    exact ⟨top, r, habove, hr, hparent⟩
  distinct := h.distinct
  roots k := (h.roots k).trans NodeTable.isTop_iff

/-- In whatever comes about the nodes hang together as trees. -/
theorem Site.Reachable.rooted {types : TypeRegistry} {site : Site} {past : List Checkpoint}
    {made : List Change} (h : Site.Reachable types site past made) : site.forest.Rooted :=
  h.sound.wellFormed.toRooted

/-! ## A library with a book -/

namespace Examples

/-- A node without any below it is a subtree. -/
theorem obtainable_of_leaf {n : Node} (h : n.owned = []) : Subtree.Obtainable ⟨n, []⟩ :=
  .ofList (Subtree.single_of_leaf h)

/-- A site with a library. -/
def opened : Site := Call.after (.empty libraryTypes) (.commit opening)

/-- A site with a library and a book in it. -/
def stocked : Site := Call.after opened (.commit shelving)

theorem reachable_opened : Site.Reachable libraryTypes opened [] [opening] :=
  .call (.commit opening) (.empty _) (List.forall_mem_singleton.2 (obtainable_of_leaf rfl))

theorem reachable_stocked : Site.Reachable libraryTypes stocked [] [opening, shelving] :=
  .call (.commit shelving) reachable_opened (List.forall_mem_singleton.2 (obtainable_of_leaf rfl))

theorem rooted_stocked : Site.Reachable libraryTypes stocked [] [opening, shelving] ∧
    stocked.forest.Rooted ∧ stocked.forest.nodes.above? ⟨"novel"⟩ = some ⟨"city"⟩ :=
  ⟨reachable_stocked, Site.Reachable.rooted reachable_stocked, rfl⟩

end Examples

end DeltaForest
