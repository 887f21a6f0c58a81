import DeltaForest.Plan
import DeltaForest.Position
import DeltaForest.Seat

/-!
# Forests

A forest is a set of partitions: the nodes with everything below them that stand on their own. All
nodes are in one table; the roots of the partitions are listed in the order in which they came.

A forest changes by `apply` only. It plans what a change stands for once more, refuses the change
if that is not the very same, and then performs it step by step. A step that fails would leave the
steps before it done; actions on a forest are therefore written so that a failing one keeps the
state it has reached, and that `apply` never fails half-way is something to be proved.
-/

namespace DeltaForest

/-- A forest. -/
structure Forest where
  types : TypeRegistry
  nodes : NodeTable
  /-- The roots of the partitions. -/
  partitions : List NodeId
  /-- The number of the next change that is made here. -/
  nextLocal : Nat

/-- What can be gone back to: nodes and partitions. -/
structure Checkpoint where
  nodes : NodeTable
  partitions : List NodeId

/-- An action on a forest. If it fails, the forest is as the failing step found it. -/
abbrev Forest.Action : Type → Type := EStateM Fault Forest

namespace Forest

/-- A forest without partitions. -/
def empty (types : TypeRegistry) : Forest := ⟨types, ∅, [], 0⟩

/-- What is known at the moment. -/
def model (f : Forest) : Model := ⟨f.types, f.nodes⟩

/-- What can be gone back to. -/
def checkpoint (f : Forest) : Checkpoint := ⟨f.nodes, f.partitions⟩

/-- A forest as it was. Numbers of changes are not used again. -/
def restore (f : Forest) (c : Checkpoint) : Forest :=
  { f with nodes := c.nodes, partitions := c.partitions }

namespace Action

/-- An action that only looks at the forest. -/
def ask {α : Type} (question : Forest → Except Fault α) : Action α :=
  fun f => match question f with
  | .ok a => .ok a f
  | .error fault => .error fault f

/-- An action on the table of nodes. -/
def onNodes (step : NodeTable → Except Fault NodeTable) : Action Unit :=
  fun f => match step f.nodes with
  | .ok nodes => .ok () { f with nodes := nodes }
  | .error fault => .error fault f

/-- Edits a node and prunes it. If the edit says nothing, the change `kind` does not fit the
    state; the node is pruned all the same. -/
def onNode {α : Type} (kind : String) (id : NodeId) (step : Node → Option (α × Node)) :
    Action α :=
  fun f => match f.nodes[id]? with
  | none => .error (.unknownNode id) f
  | some n =>
    match step n with
    | some (a, edited) => .ok a { f with nodes := f.nodes.insert id edited.prune }
    | none => .error (.staleChange kind) { f with nodes := f.nodes.insert id n.prune }

/-- Edits a node by an edit that always has a result. -/
def update (kind : String) (id : NodeId) (step : Node → Node) : Action Unit :=
  onNode kind id fun n => some ((), step n)

/-! ## Steps with owned nodes -/

/-- Puts a node into a seat. -/
def seat (kind : String) (p : Place Seat) (id : NodeId) : Action Unit :=
  onNode kind p.owner fun n =>
    (Position.insert? (n.seated p.feature) p.index id).map ((), n.withSeated p.feature ·)

/-- Takes a node out of a seat. -/
def unseat (kind : String) (p : Place Seat) : Action Unit :=
  onNode kind p.owner fun n =>
    (Position.remove? (n.seated p.feature) p.index).map fun (_, ids) =>
      ((), n.withSeated p.feature ids)

/-- Puts a node into the place of another one. -/
def reseat (kind : String) (p : Place Seat) (id : NodeId) : Action Unit :=
  onNode kind p.owner fun n =>
    (Position.replace? (n.seated p.feature) p.index id).map ((), n.withSeated p.feature ·)

/-- Sets the link to the node above. -/
def adopt (id parent : NodeId) : Action Unit :=
  onNodes fun nodes => do
    let n ← nodes.get id
    return nodes.insert id { n with parent := some parent }

/-- Adds the nodes of a subtree. -/
def plant (s : Subtree) (parent : Option NodeId) : Action Unit :=
  onNodes (·.insertSubtree s parent)

/-- Takes out a node and everything below it. -/
def fell (root : NodeId) : Action Unit :=
  onNodes (·.eraseSubtree root)

/-- Adds a subtree at a place. -/
def attach (kind : String) (p : Place Seat) (new : Subtree) : Action Unit := do
  plant new (some p.owner)
  seat kind p new.root.id

/-- Takes a subtree away from a place. -/
def detach (kind : String) (p : Place Seat) (old : NodeId) : Action Unit := do
  unseat kind p
  fell old

/-- Puts a subtree into the place of another one. -/
def exchange (kind : String) (p : Place Seat) (new : Subtree) (old : NodeId) : Action Unit := do
  -- The root is seated before it is there.
  reseat kind p new.root.id
  fell old
  plant new (some p.owner)

/-- Moves a node. -/
def move (kind : String) (target source : Place Seat) (moved : NodeId) : Action Unit := do
  -- Where the node lands is counted in the lists without it.
  unseat kind source
  seat kind target moved
  adopt moved target.owner

/-- Moves a node into the place of another one, which is taken away. -/
def moveAndReplace (kind : String) (target source : Place Seat) (moved old : NodeId) :
    Action Unit := do
  -- The node takes its new place before it leaves the old one, so that neither place shifts.
  reseat kind target moved
  unseat kind source
  fell old
  adopt moved target.owner

/-! ## Steps with entries -/

/-- Puts an entry at a place. -/
def insertEntry (kind : String) (p : Place Handle) (e : Entry) : Action Unit :=
  onNode kind p.owner fun n =>
    (Position.insert? (n.entries p.feature) p.index e).map ((), n.withEntries p.feature ·)

/-- Takes the entry at a place away. -/
def removeEntry (kind : String) (p : Place Handle) : Action Entry :=
  onNode kind p.owner fun n =>
    (Position.remove? (n.entries p.feature) p.index).map fun (e, entries) =>
      (e, n.withEntries p.feature entries)

/-- Puts an entry into the place of another one. -/
def replaceEntry (kind : String) (p : Place Handle) (e : Entry) : Action Unit :=
  onNode kind p.owner fun n =>
    (Position.replace? (n.entries p.feature) p.index e).map ((), n.withEntries p.feature ·)

/-- The entry at a place. -/
def readEntry (kind : String) (p : Place Handle) : Action Entry :=
  onNode kind p.owner fun n => (n.entries p.feature)[p.index]?.map (·, n)

/-- Edits the entry at a place. -/
def editEntry (kind : String) (p : Place Handle) (step : Entry → Entry) : Action Unit :=
  onNode kind p.owner fun n =>
    (n.entries p.feature)[p.index]?.map fun e =>
      ((), n.withEntries p.feature ((n.entries p.feature).set p.index (step e)))

/-- Moves an entry. -/
def moveEntry (kind : String) (target source : Place Handle) : Action Unit := do
  let e ← removeEntry kind source
  insertEntry kind target e

/-- Moves an entry into the place of another one, which is taken away. -/
def moveAndReplaceEntry (kind : String) (target source : Place Handle) : Action Unit := do
  -- For a moment the entry stands at both places, so that neither shifts.
  let e ← readEntry kind source
  replaceEntry kind target e
  let _ ← removeEntry kind source

/-! ## Changes -/

/-- Performs a change. -/
def perform (c : Change) : Action Unit :=
  match c with
  | .partitionAdded tree => do
    plant tree none
    modify fun f => { f with partitions := f.partitions ++ [tree.root.id] }
  | .partitionDeleted tree => do
    fell tree.root.id
    modify fun f => { f with partitions := f.partitions.filter (· ≠ tree.root.id) }
  | .classifierChanged id new _ => update c.kind id ({ · with classifier := new })
  | .propertyAdded id property new | .propertyChanged id property new _ =>
    update c.kind id fun n => { n with properties := n.properties.insert property new }
  | .propertyDeleted id property _ =>
    onNode c.kind id fun n =>
      (n.property? property).map fun _ =>
        ((), { n with properties := n.properties.erase property })
  | .childAdded place new => attach c.kind place.seat new
  | .childDeleted place old => detach c.kind place.seat old.root.id
  | .childReplaced place new old => exchange c.kind place.seat new old.root.id
  | .childMoved shift moved => move c.kind shift.target.seat shift.source.seat moved
  | .childMovedAndReplaced shift moved old =>
    moveAndReplace c.kind shift.target.seat shift.source.seat moved old.root.id
  | .annotationAdded place new => attach c.kind place.seat new
  | .annotationDeleted place old => detach c.kind place.seat old.root.id
  | .annotationReplaced place new old => exchange c.kind place.seat new old.root.id
  | .annotationMoved shift moved => move c.kind shift.target.seat shift.source.seat moved
  | .annotationMovedAndReplaced shift moved old =>
    moveAndReplace c.kind shift.target.seat shift.source.seat moved old.root.id
  | .entryAdded place new => insertEntry c.kind place new
  | .entryDeleted place _ => do let _ ← removeEntry c.kind place
  | .entryChanged place new _ => replaceEntry c.kind place new
  | .entryMoved shift _ => moveEntry c.kind shift.target shift.source
  | .entryMovedAndReplaced shift _ _ => moveAndReplaceEntry c.kind shift.target shift.source
  | .resolveInfoAdded place new _ | .resolveInfoChanged place new _ _ =>
    editEntry c.kind place ({ · with resolveInfo := some new })
  | .resolveInfoDeleted place _ _ => editEntry c.kind place ({ · with resolveInfo := none })
  | .targetAdded place new _ | .targetChanged place new _ _ =>
    editEntry c.kind place ({ · with target := some new })
  | .targetDeleted place _ _ => editEntry c.kind place ({ · with target := none })

/-- Makes a change, if it fits the state. -/
def apply (c : Change) : Action Unit := do
  let planned ← ask (·.model.replan c)
  -- What was planned on another state may say something else now.
  if planned ≠ c then throw (.staleChange c.kind)
  perform c

end Action

end Forest

end DeltaForest
