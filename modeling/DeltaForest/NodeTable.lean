import DeltaForest.Node

/-!
# Tables of nodes

The nodes of a forest, or of a part of one, by their ids. Nodes refer to each other by id only, so
that a table may hold any graph: what a node owns may be missing, shared or owned in a circle. The
walks through a table are therefore careful. `depthFirst` follows the owned nodes from a root,
every node before what it owns, and takes each id once; `isAncestorOrSelf` follows the links to
the nodes above and passes each node once.
-/

namespace DeltaForest

/-- Nodes by id. -/
abbrev NodeTable : Type := Std.ExtTreeMap NodeId Node compare

namespace NodeTable

/-- The table of some nodes. -/
def ofList (nodes : List Node) : NodeTable :=
  nodes.foldl (fun t n => t.insert n.id n) ∅

/-- The node with an id. -/
def get (t : NodeTable) (id : NodeId) : Except Fault Node :=
  match t[id]? with
  | some n => .ok n
  | none => .error (.unknownNode id)

/-- Erasing a registered node leaves a smaller table. -/
theorem size_erase_lt {t : NodeTable} {id : NodeId} {n : Node} (h : t[id]? = some n) :
    (t.erase id).size < t.size := by
  have hc : t.contains id = true := by
    rw [Std.ExtTreeMap.contains_eq_isSome_getElem?, h]
    rfl
  have hpos : t.size ≠ 0 := fun h0 => by
    rw [Std.ExtTreeMap.eq_empty_iff_size_eq_zero.2 h0] at h
    simp at h
  rw [Std.ExtTreeMap.size_erase, if_pos hc]
  omega

/-- The ids to be met by a walk that has already passed `visited` and has the ids of `stack` in
    front of it. The table holds the nodes that have not been passed. -/
def walk (t : NodeTable) (visited : List NodeId) : List NodeId → List NodeId
  | [] => []
  | id :: rest =>
    if id ∈ visited then walk t visited rest
    else
      match _found : t[id]? with
      | some n => id :: walk (t.erase id) (id :: visited) (n.owned ++ rest)
      | none => id :: walk t (id :: visited) rest
termination_by stack => (t.size, stack.length)
decreasing_by
  · exact Prod.Lex.right _ (by simp)
  · exact Prod.Lex.left _ _ (size_erase_lt _found)
  · exact Prod.Lex.right _ (by simp)

/-- All ids that can be reached from a root by following owned nodes, every node before what it
    owns. An id that is not in the table is among them but leads no further. -/
def depthFirst (t : NodeTable) (root : NodeId) : List NodeId :=
  t.walk [] [root]

/-- Whether `ancestor` is the node itself or above it. -/
def isAncestorOrSelf (t : NodeTable) (ancestor id : NodeId) : Bool :=
  if id = ancestor then true
  else
    match _found : t[id]? with
    | none => false
    | some n =>
      match n.parent with
      | none => false
      | some above => isAncestorOrSelf (t.erase id) ancestor above
termination_by t.size
decreasing_by exact size_erase_lt _found

end NodeTable

end DeltaForest
