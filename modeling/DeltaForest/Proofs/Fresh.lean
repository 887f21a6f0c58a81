import DeltaForest.Proofs.Exported
import DeltaForest.Proofs.Works

/-!
# Fresh changes

A change says what was there before it, so it fits one state and may be stale in another one. In
whatever has come about, a change that has just been planned is fresh: planned again it is the same
change, and it is made (`Site.Reachable.fresh`).

A fresh change can be told as a command and as an event, and either is understood as the change as
it arrives (`Site.Reachable.carries`). What comes with it arrives without the links of the roots
and without empty lists, and but for these the change is as it was: where there are no such links
and lists, nothing is lost (`Change.travelled_eq_self_iff`).
-/

namespace DeltaForest

open Protocol

/-! ## What arrives -/

theorem Node.travelled_eq_self_iff {n : Node} :
    n.travelled = n ↔ n.parent = none ∧ n.Filled := by
  constructor
  · intro h
    have hfilled := n.filled_prune
    exact ⟨(congrArg Node.parent h).symm, h ▸ ⟨hfilled.containments, hfilled.references⟩⟩
  · rintro ⟨hparent, hfilled⟩
    rw [travelled, prune_eq_self_iff.2 hfilled, ← hparent]

/-- A subtree that is as it will arrive: there is no link from its root, and every list holds
    something. -/
structure Subtree.Packed (tree : Subtree) : Prop where
  top : tree.root.parent = none
  filled : ∀ n ∈ tree.nodes, n.Filled

theorem Subtree.travelled_eq_self_iff {tree : Subtree} : tree.travelled = tree ↔ tree.Packed := by
  constructor
  · intro h
    obtain ⟨htop, hroot⟩ := Node.travelled_eq_self_iff.1 (congrArg Subtree.root h :)
    have hbelow : tree.descendants.map Node.prune = tree.descendants :=
      congrArg Subtree.descendants h
    refine ⟨htop, List.forall_mem_cons.2 ⟨hroot, ?_⟩⟩
    rw [← hbelow]
    exact List.forall_mem_map.2 fun n _ => n.filled_prune
  · intro h
    obtain ⟨hroot, hbelow⟩ := List.forall_mem_cons.1 h.filled
    have hdescendants : tree.descendants.map Node.prune = tree.descendants :=
      (List.map_congr_left fun n hn => Node.prune_eq_self_iff.2 (hbelow n hn)).trans (List.map_id _)
    rw [travelled, Node.travelled_eq_self_iff.2 ⟨h.top, hroot⟩, hdescendants]

/-- A change arrives as it was if all that comes with it is packed. -/
theorem Change.travelled_eq_self_iff {c : Change} :
    c.travelled = c ↔ ∀ tree ∈ c.incoming, tree.Packed := by
  cases c <;> simp [travelled, mapTrees, incoming, Subtree.travelled_eq_self_iff]

/-! ## Changes that are fresh -/

namespace Forest

variable {f : Forest} {c : Change}

/-- A change that is fresh: planned again it is the same, and it is made. -/
structure Fresh (f : Forest) (c : Change) : Prop where
  replanned : f.model.replan c = .ok c
  made : Action.apply c f = .ok () (f.changed c)

/-- A change that both lanes carry: what is told of it, as a command or as an event, is understood
    as the change as it arrives. -/
structure Carries (f : Forest) (c : Change) : Prop where
  command : ∃ command, Command.ofChange f.types c = .ok command ∧
    command.toChange f.model = .ok c.travelled
  event : ∃ event, Event.ofChange f.types c = .ok event ∧
    event.toChange f.model = .ok c.travelled

end Forest

section Reachable

variable {types : TypeRegistry} {site : Site} {past : List Checkpoint} {made : List Change}
  {c : Change}

/-- In whatever has come about, a change that has just been planned is fresh. -/
theorem Site.Reachable.fresh (h : Site.Reachable types site past made) {e : Edit}
    (hplan : site.forest.model.plan e = .ok c) (htree : ∀ tree ∈ e.incoming, tree.Obtainable) :
    site.forest.Fresh c := by
  obtain ⟨hreplan, -, happly⟩ := Forest.Action.apply_of_plan h.sound.wellFormed hplan
    fun tree hin => (htree tree hin).isTree
  exact ⟨hreplan, happly⟩

/-- In whatever has come about, both lanes carry every change that can be made. -/
theorem Site.Reachable.carries {languages : List Language}
    (htypes : TypeRegistry.registerAll .empty languages = .ok types)
    (h : Site.Reachable types site past made) (htree : ∀ tree ∈ c.incoming, tree.Obtainable)
    {f' : Forest} (happly : Forest.Action.apply c site.forest = .ok () f') :
    site.forest.Carries c := by
  have hproper := h.proper
  have htrees := fun tree hin => (htree tree hin).isTree
  obtain ⟨hreplan, -⟩ :=
    (Forest.Action.apply_eq_ok hproper.wellFormed.treelike htrees).1 happly
  have hl := TypeRegistry.lawful_of_registerAll htypes
  obtain rfl := hproper.types
  exact ⟨Forest.exists_command hl hproper hreplan htrees,
    Forest.exists_event hl hproper hreplan htrees⟩

end Reachable

/-! ## A title and a second book -/

namespace Examples

/-- Whether or not the first book has a title, this is to be its title. -/
def titling : Edit := .setProperty ⟨"novel"⟩ ⟨6⟩ (.string "Emma")

/-- It has none, so the title is new. -/
def titled : Change := .propertyAdded ⟨"novel"⟩ ⟨6⟩ (.string "Emma")

theorem fresh_titled : Site.Reachable libraryTypes stocked [] [opening, shelving] ∧
    stocked.forest.model.plan titling = .ok titled ∧ stocked.forest.Fresh titled := by
  have hplan : stocked.forest.model.plan titling = .ok titled := by decide +kernel
  exact ⟨reachable_stocked, hplan,
    Site.Reachable.fresh reachable_stocked hplan (List.forall_mem_nil _)⟩

/-- The second book is carried, but not with its empty list. -/
theorem carries_accompanying : TypeRegistry.registerAll .empty [library] = .ok libraryTypes ∧
    Site.Reachable libraryTypes stocked [] [opening, shelving] ∧
    stocked.forest.Carries accompanying ∧ accompanying.travelled ≠ accompanying := by
  have hin : ∀ tree ∈ accompanying.incoming, tree.Obtainable :=
    List.forall_mem_singleton.2 (obtainable_of_leaf rfl)
  have hplan : stocked.forest.model.plan accompanying.edit = .ok accompanying := by
    decide +kernel
  obtain ⟨-, -, happly⟩ := Forest.Action.apply_of_plan reachable_stocked.sound.wellFormed hplan
    fun tree htree => (hin tree htree).isTree
  refine ⟨registerAll_library, reachable_stocked,
    Site.Reachable.carries registerAll_library reachable_stocked hin happly, fun hsame => ?_⟩
  have hpacked := Change.travelled_eq_self_iff.1 hsame companion List.mem_cons_self
  exact (hpacked.filled _ List.mem_cons_self).references ⟨12⟩ (by decide +kernel)

end Examples

end DeltaForest
