import DeltaForest.Proofs.Exported

/-!
# Chunks in any order

The items of a chunk may stand in any order. A table of nodes does not know in which order the
nodes have come (`NodeTable.ofList_perm`), and where every node is owned once its owner can be found
in any list of ownerships (`Subtree.link_perm`). So nodes that are a tree are the same tree in any
order (`Subtree.ofList_perm`), and as every item is read on its own, a chunk is read as the same
subtree whatever the order of its items (`Chunk.toSubtree_perm`).

With this, what may enter a forest comes back from its chunk, in whatever order, as a copy of itself
(`Site.Reachable.shuffled`).
-/

namespace DeltaForest

/-- A table holds the same nodes in whatever order they come. -/
theorem NodeTable.ofList_perm {nodes nodes' : List Node} (hp : nodes.Perm nodes')
    (hd : (nodes.map Node.id).Nodup) : NodeTable.ofList nodes = NodeTable.ofList nodes' := by
  have hd' := (hp.map Node.id).nodup_iff.1 hd
  ext k n
  rw [lookup_ofList_eq_some hd, lookup_ofList_eq_some hd', hp.mem_iff]

namespace Subtree

variable {nodes nodes' : List Node} {root : NodeId} {s : Subtree}

theorem ownerships_perm (hp : nodes.Perm nodes') : (ownerships nodes).Perm (ownerships nodes') :=
  hp.flatMap_right _

/-- What is owned once has the same owner in whatever order ownerships stand. -/
theorem link_perm {pairs pairs' : List (NodeId × NodeId)} (hp : pairs.Perm pairs')
    (honce : (pairs.map (·.2)).Nodup) : link pairs = link pairs' := by
  have honce' := (hp.map (·.2)).nodup_iff.1 honce
  funext n
  have howner : (pairs.find? (·.2 = n.id)).map (·.1) = (pairs'.find? (·.2 = n.id)).map (·.1) := by
    ext p
    rw [owner_eq_some honce, owner_eq_some honce', hp.mem_iff]
  rw [link_eq, link_eq, howner]

/-- Whether nodes are a tree, and which one, does not depend on their order. -/
theorem Grown.perm (h : Grown nodes root s) (hp : nodes.Perm nodes') : Grown nodes' root s := by
  -- All that is asked of the list is a matter of ids, pairs and look-ups.
  have hids := hp.map Node.id
  have hpairs := ownerships_perm hp
  have htable := NodeTable.ofList_perm hp h.distinct
  have hlink := link_perm hpairs h.once
  have hfree (id : NodeId) : (ownerships nodes').all (·.2 ≠ id) =
      (ownerships nodes).all (·.2 ≠ id) := hpairs.all_eq.symm
  exact {
    distinct := hids.nodup_iff.1 h.distinct
    present := fun pair hpair => hids.mem_iff.1 (h.present pair (hpairs.mem_iff.2 hpair))
    once := (hpairs.map (·.2)).nodup_iff.1 h.once
    rooted := by
      simp only [hfree]
      exact List.perm_singleton.1 ((hids.filter _).symm.trans (.of_eq h.rooted))
    reached := by rw [← htable, h.reached, hp.length_eq]
    inOrder := by
      rw [← htable, ← hlink]
      exact h.inOrder }

/-- Nodes that are a tree are the same tree in any order. -/
theorem ofList_perm (hp : nodes.Perm nodes') (h : ofList nodes = .ok s) : ofList nodes' = .ok s :=
  let ⟨root, hgrown⟩ := ofList_eq_ok.1 h
  ofList_eq_ok.2 ⟨root, hgrown.perm hp⟩

end Subtree

/-- A chunk is read as the same subtree whatever the order of its items. -/
theorem Chunk.toSubtree_perm {types : TypeRegistry} {known : NodeTable} {tree : Subtree}
    {items items' : List Item} (hp : items.Perm items')
    (h : (⟨items⟩ : Chunk).toSubtree types known = .ok tree) :
    (⟨items'⟩ : Chunk).toSubtree types known = .ok tree := by
  obtain ⟨nodes, hnodes, hvacant, hsupplied, hlist⟩ := toSubtree_eq_ok.1 h
  -- Every item is read on its own, so the nodes stand in the order of the items.
  obtain ⟨nodes', hnodes', hperm⟩ := List.perm_comp_forall₂ hp.symm (mapM_eq_ok.1 hnodes)
  refine toSubtree_eq_ok.2 ⟨nodes', mapM_eq_ok.2 hnodes', fun n hn => ?_, fun n hn x hx => ?_,
    Subtree.ofList_perm hperm.symm hlist⟩
  · exact hvacant n (hperm.mem_iff.1 hn)
  · rw [(hperm.map Node.id).mem_iff]
    exact hsupplied n (hperm.mem_iff.1 hn) x hx

/-- Whatever comes about, a subtree that may enter can be written as a chunk, and in whatever order
    the items of the chunk stand, they are read as one and the same copy of the subtree. -/
theorem Site.Reachable.shuffled {types : TypeRegistry} {languages : List Language}
    (htypes : TypeRegistry.registerAll .empty languages = .ok types) {site : Site}
    {past : List Checkpoint} {made : List Change} (h : Site.Reachable types site past made)
    {nodes : List Node} {tree : Subtree} (hlist : Subtree.ofList nodes = .ok tree)
    (hnew : site.forest.model.checkNew tree = .ok ()) :
    ∃ chunk back, Chunk.ofSubtree types tree = .ok chunk ∧ tree.Copies back ∧
      ∀ items, items.Perm chunk.items →
        (⟨items⟩ : Chunk).toSubtree types site.forest.nodes = .ok back := by
  obtain rfl := h.sound.types
  obtain ⟨chunk, hwrite, hread⟩ := Chunk.exists_travelled (m := site.forest.model)
    (TypeRegistry.lawful_of_registerAll htypes) (Subtree.isTree_ofList hlist) hnew
  exact ⟨chunk, tree.travelled, hwrite, tree.copies_travelled,
    fun items hp => Chunk.toSubtree_perm hp.symm hread⟩

/-! ## A library that is to come -/

namespace Examples

/-- A library with one book and an empty list of what is in the archive. -/
def branch : Node :=
  ((Node.bare ⟨"branch"⟩ ⟨0⟩).withChildren ⟨2⟩ [⟨"sequel"⟩]).withChildren ⟨3⟩ []

/-- The library, and in it the second book, which refers to the first one. -/
def branching : Subtree := ⟨branch, [{ sequel.root with parent := some ⟨"branch"⟩ }]⟩

/-- The library has been put together from its nodes, the book first. -/
theorem ofList_branching : Subtree.ofList [sequel.root, branch] = .ok branching := by
  have hbranch :
      (NodeTable.ofList [sequel.root, branch])[(⟨"branch"⟩ : NodeId)]? = some branch := by
    decide +kernel
  have hleaf : ∀ k ∈ branch.owned, ∀ n ∈ (NodeTable.ofList [sequel.root, branch])[k]?,
      n.owned = [] := by
    decide +kernel
  -- The branch has leaves only, so it is walked as its list of children.
  have horder : (NodeTable.ofList [sequel.root, branch]).depthFirst ⟨"branch"⟩ =
      ⟨"branch"⟩ :: branch.owned :=
    NodeTable.depthFirst_of_leaves hbranch (by decide +kernel) hleaf
  refine Subtree.ofList_eq_ok.2 ⟨⟨"branch"⟩, by decide +kernel, by decide +kernel,
    by decide +kernel, by decide +kernel, ?_, ?_⟩
  · rw [horder]
    decide +kernel
  · rw [horder]
    decide +kernel

/-- Where the first book is, the library can be read from its chunk in either order. -/
theorem shuffled_branching : Site.Reachable libraryTypes stocked [] [opening, shelving] ∧
    Subtree.ofList [sequel.root, branch] = .ok branching ∧
    stocked.forest.model.checkNew branching = .ok () ∧
    ∃ chunk back, Chunk.ofSubtree libraryTypes branching = .ok chunk ∧ branching.Copies back ∧
      ∀ items, items.Perm chunk.items →
        (⟨items⟩ : Chunk).toSubtree libraryTypes stocked.forest.nodes = .ok back := by
  have hnew : stocked.forest.model.checkNew branching = .ok () := by decide +kernel
  exact ⟨reachable_stocked, ofList_branching, hnew,
    Site.Reachable.shuffled registerAll_library reachable_stocked ofList_branching hnew⟩

end Examples

end DeltaForest
