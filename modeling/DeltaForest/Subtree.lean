import DeltaForest.NodeTable

/-!
# Subtrees

A subtree is a node with everything below it, outside of any forest: the root first and then its
descendants, every node before what it owns and everything below a node before its next sibling.

`Subtree.ofList` puts a subtree together from nodes in any order. The nodes have to be a tree: ids
are distinct, every owned node is there and owned at one place only, one node is owned by no other,
and all nodes are below it. Links to the node above are set from ownership; only the root keeps
the link that it came with.
-/

namespace DeltaForest

/-- A node with everything below it. -/
structure Subtree where
  root : Node
  descendants : List Node
  deriving DecidableEq, Inhabited

namespace Subtree

/-- All nodes, the root first. -/
def nodes (s : Subtree) : List Node := s.root :: s.descendants

/-- The ids of the nodes below the root. -/
def descendantIds (s : Subtree) : List NodeId := s.descendants.map Node.id

/-- The number of nodes. -/
def size (s : Subtree) : Nat := s.nodes.length

/-- The subtree of some nodes in their final order. -/
def ofOrdered? : List Node → Option Subtree
  | [] => none
  | root :: descendants => some ⟨root, descendants⟩

/-! ## From nodes in any order -/

/-- The first of some ids that stands twice. -/
def firstRepeated (seen : List NodeId) : List NodeId → Option NodeId
  | [] => none
  | id :: rest => if id ∈ seen then some id else firstRepeated (id :: seen) rest

/-- Every owned node with its owner, owner by owner. -/
def ownerships (nodes : List Node) : List (NodeId × NodeId) :=
  nodes.flatMap fun n => n.owned.map fun child => (n.id, child)

/-- The first flaw in ownerships: a child that is not `present` or that is `owned` already. -/
def firstFlaw (present owned : List NodeId) : List (NodeId × NodeId) → Option ChunkFlaw
  | [] => none
  | (owner, child) :: rest =>
    if child ∉ present then some (.missing owner child)
    else if child ∈ owned then some (.ownedTwice child)
    else firstFlaw present (child :: owned) rest

/-- A node with the link to the owner that some ownerships give it. -/
def link (ownerships : List (NodeId × NodeId)) (n : Node) : Node :=
  match ownerships.find? (·.2 = n.id) with
  | some (owner, _) => { n with parent := some owner }
  | none => n

/-- The subtree below `root`, if it takes up all the nodes. -/
def below (nodes : List Node) (root : NodeId) : Except Fault Subtree :=
  let table := NodeTable.ofList nodes
  let order := table.depthFirst root
  -- Whoever is not reached from the root sits in a circle.
  if order.length ≠ nodes.length then .error (.invalidChunk .cycle)
  else
    match ofOrdered? ((order.filterMap fun id => table[id]?).map (link (ownerships nodes))) with
    | some s => .ok s
    | none => .error (.invalidChunk .rootless)

/-- The subtree of some nodes in any order. -/
def ofList (nodes : List Node) : Except Fault Subtree :=
  let ids := nodes.map Node.id
  match firstRepeated [] ids with
  | some id => .error (.duplicateNode id)
  | none =>
    let pairs := ownerships nodes
    match firstFlaw ids [] pairs with
    | some flaw => .error (.invalidChunk flaw)
    | none =>
      -- The root is the one that nobody owns.
      match ids.filter fun id => pairs.all (·.2 ≠ id) with
      | [] => .error (.invalidChunk .rootless)
      | [root] => below nodes root
      | first :: second :: _ => .error (.invalidChunk (.roots first second))

/-- The subtree of a single node. -/
def single (n : Node) : Except Fault Subtree := ofList [n]

end Subtree

namespace NodeTable

/-- The node with an id and everything below it. -/
def collect (t : NodeTable) (root : NodeId) : Except Fault Subtree := do
  let nodes ← (t.depthFirst root).mapM t.get
  match Subtree.ofOrdered? nodes with
  | some s => return s
  | none => throw (.unknownNode root)

/-- The first node of a subtree whose id is taken is refused. -/
def checkVacant (t : NodeTable) (s : Subtree) : Except Fault Unit :=
  match s.nodes.find? fun n => t.contains n.id with
  | some n => .error (.duplicateNode n.id)
  | none => .ok ()

/-- Adds the nodes of a subtree below a node, or on their own. -/
def insertSubtree (t : NodeTable) (s : Subtree) (parent : Option NodeId) :
    Except Fault NodeTable := do
  t.checkVacant s
  return (⟨{ s.root with parent := parent }, s.descendants⟩ : Subtree).nodes.foldl
    (fun t n => t.insert n.id n) t

/-- Takes out a node and everything below it. -/
def eraseSubtree (t : NodeTable) (root : NodeId) : Except Fault NodeTable := do
  let _ ← t.get root
  return (t.depthFirst root).foldl (fun t id => t.erase id) t

end NodeTable

end DeltaForest
