import DeltaForest.Proofs.Guarded

/-!
# Strangers

A message that names a node which is not there may be kept until the node has come
(`Fault.isUnresolvedReference`). That is worth the wait only if the node can still come and if
it is the message that asks for it. A fault about an unknown node is truthful (`Fault.Truthful`) if
it is about one that has been named and that is not in the table.

Some nodes are looked up without being named: the one above a node that moves, and everything
below a node that leaves. In a table that is treelike these are all there (`Treelike.allows`), so
no fault is about them. What is left to ask for are the nodes that the message names and those that
the chunk in it refers to (`Command.Mentions`, `Event.Mentions`). So whatever a site that has come
about answers to a message, it speaks of unknown nodes truthfully (`Site.Reachable.truthful`).
-/

namespace DeltaForest

open Protocol

/-- A fault that speaks of an unknown node only if it has been named and is not in the table. -/
def Fault.Truthful (t : NodeTable) (Named : NodeId → Prop) : Fault → Prop
  | .unknownNode id => Named id ∧ id ∉ t
  | _ => True

namespace NodeTable

variable {t : NodeTable} {Named : NodeId → Prop} {id : NodeId}

/-- The id of a node that a table does not know: none is stored under it, none that is stored stands
    below it, and none owns it. -/
structure Foreign (t : NodeTable) (id : NodeId) : Prop where
  absent : id ∉ t
  not_above : ∀ (k : NodeId) (n : Node), t[k]? = some n → n.parent ≠ some id
  not_owned : ∀ (k : NodeId) (n : Node), t[k]? = some n → id ∉ n.owned

/-- A node that is named is there, or it may be said that it is not. -/
theorem askable_of_named (h : Named id) : t.Askable (Fault.Truthful t Named) id :=
  (Classical.em (id ∈ t)).imp_right fun habsent => ⟨h, habsent⟩

namespace Treelike

variable (ht : t.Treelike)

include ht

theorem mem_of_parent {k p : NodeId} {n : Node} (hn : t[k]? = some n) (hp : n.parent = some p) :
    p ∈ t :=
  (ht.mem_of_above? ((above?_eq hn).trans hp)).2

theorem mem_of_owned {p k : NodeId} {n : Node} (hn : t[p]? = some n) (hk : k ∈ n.owned) : k ∈ t :=
  (ht.mem_of_above? (ht.above?_of_owned hn hk)).1

/-- What is not in a treelike table is not known in any other way. -/
theorem foreign (h : id ∉ t) : t.Foreign id where
  absent := h
  not_above _ _ hn hp := h (ht.mem_of_parent hn hp)
  not_owned _ _ hn hid := h (ht.mem_of_owned hn hid)

end Treelike

end NodeTable

/-- In a treelike model the truthful faults are enough: whatever a node that is there says of other
    nodes, they are there as well. -/
theorem Model.allows_truthful {m : Model} (ht : m.nodes.Treelike) (Named : NodeId → Prop) :
    m.Allows (Fault.Truthful m.nodes Named) where
  plain fault hplain := by
    cases fault
    case unknownNode => exact hplain.elim
    all_goals trivial
  handles _ _ _ _ _ := .inr trivial
  above _ _ hn _ hp := .inl (ht.mem_of_parent hn hp)
  owned _ _ hn _ hx := .inl (ht.mem_of_owned hn hx)

namespace Protocol

variable {m : Model} {x : NodeId}

/-- A command names a node, or the chunk in it refers to it. -/
def Command.Mentions (c : Command) (x : NodeId) : Prop :=
  x ∈ c.nodeIds ∨ ∃ chunk ∈ c.chunks, x ∈ chunk.targets

/-- An event names a node, or the chunk in it refers to it. -/
def Event.Mentions (event : Event) (x : NodeId) : Prop :=
  x ∈ event.nodeIds ∨ ∃ chunk ∈ event.chunks, x ∈ chunk.targets

section Messages

variable (ht : m.nodes.Treelike) (hl : m.types.Lawful)

include ht hl

theorem Command.truthful_toChange (c : Command) :
    FailsOnly (Fault.Truthful m.nodes c.Mentions) (c.toChange m) :=
  failsOnly_toChange (Model.allows_truthful ht _) hl
    (fun _ hid => NodeTable.askable_of_named (.inl hid))
    fun chunk hchunk _ hx => NodeTable.askable_of_named (.inr ⟨chunk, hchunk, hx⟩)

theorem Event.truthful_toChange (event : Event) :
    FailsOnly (Fault.Truthful m.nodes event.Mentions) (event.toChange m) :=
  failsOnly_toChange (Model.allows_truthful ht _) hl
    (fun _ hid => NodeTable.askable_of_named (.inl hid))
    fun chunk hchunk _ hx => NodeTable.askable_of_named (.inr ⟨chunk, hchunk, hx⟩)

end Messages

end Protocol

/-! ## Sites -/

namespace Site

/-- A site that speaks of an unknown node only if the message mentions it and the forest does not
    know it. -/
structure Truthful (site : Site) : Prop where
  commands : ∀ (c : Command) (x : NodeId), c.toChange site.forest.model = .error (.unknownNode x) →
    c.Mentions x ∧ site.forest.nodes.Foreign x
  events : ∀ (event : Event) (x : NodeId),
    event.toChange site.forest.model = .error (.unknownNode x) →
      event.Mentions x ∧ site.forest.nodes.Foreign x

/-- Whatever has come about speaks of unknown nodes truthfully. -/
theorem Reachable.truthful {types : TypeRegistry} {languages : List Language} {site : Site}
    {past : List Checkpoint} {made : List Change}
    (htypes : TypeRegistry.registerAll .empty languages = .ok types)
    (h : Site.Reachable types site past made) : site.Truthful := by
  have hl := TypeRegistry.lawful_of_registerAll htypes
  have ht := h.proper.wellFormed.treelike
  obtain rfl := h.proper.types
  refine ⟨fun c x hc => ?_, fun event x hevent => ?_⟩
  · obtain ⟨hmentions, habsent⟩ := c.truthful_toChange (m := site.forest.model) ht hl _ hc
    exact ⟨hmentions, ht.foreign habsent⟩
  · obtain ⟨hmentions, habsent⟩ := event.truthful_toChange (m := site.forest.model) ht hl _ hevent
    exact ⟨hmentions, ht.foreign habsent⟩

end Site

/-! ## A book about a ghost -/

namespace Examples

/-- A book that is related to one that is nowhere. -/
def haunted : Chunk :=
  ⟨[{ id := ⟨"sequel"⟩
      classifier := library.pointer "Book"
      properties := []
      containments := []
      references := [⟨library.pointer "Book-related", [⟨some ⟨"ghost"⟩, none⟩]⟩]
      annotations := []
      parent := none }]⟩

/-- Where the book is to go. -/
def besideNovel : Place Pointer := ⟨⟨"city"⟩, library.pointer "Library-books", 1⟩

/-- As long as there is no ghost, the book can be neither asked for nor told of. -/
theorem truthful_haunted : Site.Reachable libraryTypes stocked [] [opening, shelving] ∧
    (Command.addChild besideNovel haunted).toChange stocked.forest.model =
      .error (.unknownNode ⟨"ghost"⟩) ∧
    (Event.childAdded besideNovel haunted).toChange stocked.forest.model =
      .error (.unknownNode ⟨"ghost"⟩) ∧
    stocked.forest.nodes.Foreign ⟨"ghost"⟩ := by
  have hsite := Site.Reachable.truthful registerAll_library reachable_stocked
  have hcommand : (Command.addChild besideNovel haunted).toChange stocked.forest.model =
      .error (.unknownNode ⟨"ghost"⟩) := by decide +kernel
  exact ⟨reachable_stocked, hcommand, by decide +kernel, (hsite.commands _ _ hcommand).2⟩

end Examples

end DeltaForest
