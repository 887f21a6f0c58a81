import DeltaForest.Proofs.Filled

/-!
# Subtrees that are taken elsewhere

A node with everything below it can be written as a chunk whenever it is there, because all nodes of
a forest conform to their types. If nothing of it refers to a node outside, the chunk can be read
where no node is known, and what is read is a copy: the same nodes in the same order, with the same
things on them and the same nodes above them (`Site.Reachable.exported`). Only two things are lost.
The root is under no node any more, and lists that hold nothing are left out.
-/

namespace DeltaForest

/-- A node with everything below it refers to no node outside. -/
def NodeTable.SelfContained (t : NodeTable) (root : NodeId) : Prop :=
  ∀ k ∈ t.depthFirst root, ∀ n ∈ t[k]?, ∀ x ∈ n.targets, x ∈ t.depthFirst root

/-! ## Copies -/

/-- A subtree looks, node for node, the same as another one that has been taken out of its place. -/
structure Subtree.Copies (s s' : Subtree) : Prop where
  root : Node.Alike { s.root with parent := none } s'.root
  descendants : List.Forall₂ Node.Alike s.descendants s'.descendants
  /-- Lists that hold nothing are left out of the copy. -/
  filled : ∀ n ∈ s'.nodes, n.Filled

/-- What travels of a subtree is a copy of it. -/
theorem Subtree.copies_travelled (s : Subtree) : s.Copies s.travelled where
  root := by
    have hroot : s.travelled.root = Node.prune { s.root with parent := none } := rfl
    rw [Node.alike_iff, hroot, Node.prune_prune]
  descendants := by
    rw [travelled, List.forall₂_map_right_iff, List.forall₂_same]
    exact fun n _ => Node.alike_iff.2 n.prune_prune.symm
  filled := by
    refine List.forall_mem_cons.2 ⟨?_, List.forall_mem_map.2 fun n _ => n.filled_prune⟩
    exact Node.filled_prune { s.root with parent := none }

/-! ## Nodes of a forest -/

namespace NodeTable

variable {t : NodeTable} {root : NodeId}

theorem exists_map_lookup {ids : List NodeId} (h : ∀ id ∈ ids, id ∈ t) :
    ∃ nodes : List Node, ids.map (fun id => t[id]?) = nodes.map some := by
  induction ids with
  | nil => exact ⟨[], rfl⟩
  | cons id ids ih =>
    obtain ⟨hid, hids⟩ := List.forall_mem_cons.1 h
    obtain ⟨n, hn⟩ := mem_iff_exists.1 hid
    obtain ⟨nodes, hnodes⟩ := ih hids
    exact ⟨n :: nodes, by rw [List.map_cons, List.map_cons, hn, hnodes]⟩

/-- A node that is there can be taken out with everything below it. -/
theorem Treelike.exists_collect (ht : t.Treelike) (hroot : root ∈ t) :
    ∃ tree, t.collect root = .ok tree := by
  obtain ⟨nodes, hnodes⟩ := exists_map_lookup fun id => ht.mem_of_mem_depthFirst (k := id) hroot
  obtain ⟨rest, hrest⟩ := depthFirst_eq_cons t root
  cases nodes with
  | nil => simp [hrest] at hnodes
  | cons n nodes => exact ⟨⟨n, nodes⟩, collect_eq_ok.2 hnodes⟩

end NodeTable

/-- A node with everything below it can be written and, if it refers to nothing outside, be read
    where nothing is known. -/
theorem Model.exists_chunk {m : Model} {n : NodeId} (hl : m.types.Lawful)
    (ht : m.nodes.Treelike) (hconforms : m.nodes.Obeys (.conforming m.types)) (hn : n ∈ m.nodes)
    (hself : m.nodes.SelfContained n) :
    ∃ tree chunk, m.nodes.collect n = .ok tree ∧ m.chunk n = .ok chunk ∧
      chunk.toSubtree m.types ∅ = .ok tree.travelled := by
  obtain ⟨tree, hcollect⟩ := ht.exists_collect hn
  have hmem (node : Node) := NodeTable.lookup_of_mem_collect ht.keyed hcollect (n := node)
  -- All targets are in the subtree, so nothing else has to be known.
  have hsupplied : ∀ node ∈ tree.nodes, ∀ x ∈ node.targets,
      x ∈ tree.nodes.map Node.id ∨ x ∈ (∅ : NodeTable) := by
    intro node hnode x hx
    obtain ⟨hid, hlookup⟩ := hmem node hnode
    rw [NodeTable.ids_collect ht.keyed hcollect]
    exact .inl (hself _ hid _ hlookup x hx)
  obtain ⟨chunk, hwrite, hread⟩ := Chunk.toSubtree_ofSubtree hl
    (NodeTable.isTree_collect hcollect ht)
    (fun node hnode => hconforms _ _ (hmem node hnode).2)
    (fun node _ => Std.ExtTreeMap.not_mem_empty) hsupplied
  exact ⟨tree, chunk, hcollect, by rw [Model.chunk, hcollect, ok_bind, hwrite], hread⟩

/-- All nodes of whatever comes about conform, those in the table and those to go back to. -/
theorem Site.Reachable.obeys_conforming {types : TypeRegistry} {languages : List Language}
    (htypes : TypeRegistry.registerAll .empty languages = .ok types) {site : Site}
    {past : List Checkpoint} {made : List Change} (h : Site.Reachable types site past made) :
    site.forest.nodes.Obeys (.conforming types) := by
  refine (h.invariant (Q := fun _ => True) (NodeTable.obeys_empty _)
    (fun f c hf hwell hnodes _ hc htree => ?_) fun _ _ => trivial).1
  subst hf
  exact Change.conforms_outcome (m := f.model) (TypeRegistry.lawful_of_registerAll htypes)
    hwell.treelike hnodes (Model.fits_of_replan hc) (Model.permitted_of_replan hc) htree

/-- In whatever comes about a node with everything below it, if it refers to nothing outside, can be
    written as a chunk, and where nothing is known the chunk is read as a copy. -/
theorem Site.Reachable.exported {types : TypeRegistry} {languages : List Language}
    (htypes : TypeRegistry.registerAll .empty languages = .ok types) {site : Site}
    {past : List Checkpoint} {made : List Change} (h : Site.Reachable types site past made)
    {n : NodeId} (hn : n ∈ site.forest.nodes) (hself : site.forest.nodes.SelfContained n) :
    ∃ tree chunk back, site.forest.nodes.collect n = .ok tree ∧
      site.forest.model.chunk n = .ok chunk ∧ chunk.toSubtree types ∅ = .ok back ∧
        tree.Copies back := by
  have hsound := h.sound
  obtain rfl := hsound.types
  obtain ⟨tree, chunk, hcollect, hchunk, hread⟩ := Model.exists_chunk (m := site.forest.model)
    (TypeRegistry.lawful_of_registerAll htypes) hsound.wellFormed.treelike
    (h.obeys_conforming htypes) hn hself
  exact ⟨tree, chunk, tree.travelled, hcollect, hchunk, hread, tree.copies_travelled⟩

/-! ## A library with two books -/

namespace Examples

/-- A book that is related to the first one, with a list of cited books that is empty. -/
def companion : Subtree :=
  ⟨((Node.bare ⟨"companion"⟩ ⟨5⟩).withEntries ⟨11⟩ [⟨some ⟨"novel"⟩, none⟩]).withEntries ⟨12⟩ [],
    []⟩

/-- The second book is put into the library. -/
def accompanying : Change := .childAdded ⟨⟨"city"⟩, ⟨2⟩, 1⟩ companion

/-- A site with a library and two books in it. -/
def paired : Site := Call.after stocked (.commit accompanying)

theorem reachable_paired :
    Site.Reachable libraryTypes paired [] [opening, shelving, accompanying] := by
  have hmade : (Call.commit accompanying).made stocked = [accompanying] := by decide +kernel
  have h := Site.Reachable.call (.commit accompanying) reachable_stocked
    (List.forall_mem_singleton.2 (obtainable_of_leaf rfl))
  rwa [hmade] at h

/-- The library can be taken elsewhere with its books, as the second one refers to the first. The
    empty list of the second book is there and will not be in the copy. -/
theorem exported_paired : Site.Reachable libraryTypes paired [] [opening, shelving, accompanying] ∧
    (⟨"city"⟩ : NodeId) ∈ paired.forest.nodes ∧ paired.forest.nodes.SelfContained ⟨"city"⟩ ∧
    paired.forest.nodes[(⟨"companion"⟩ : NodeId)]?.map (·.references[(⟨12⟩ : Handle)]?) =
      some (some []) ∧
    ∃ tree chunk back, paired.forest.nodes.collect ⟨"city"⟩ = .ok tree ∧
      paired.forest.model.chunk ⟨"city"⟩ = .ok chunk ∧
      chunk.toSubtree libraryTypes ∅ = .ok back ∧ tree.Copies back := by
  have hcity : (⟨"city"⟩ : NodeId) ∈ paired.forest.nodes := by decide +kernel
  -- All targets are children of the city.
  have htargets : ∀ entry ∈ paired.forest.nodes.toList, ∀ x ∈ entry.2.targets,
      paired.forest.nodes.above? x = some ⟨"city"⟩ := by decide +kernel
  have hself : paired.forest.nodes.SelfContained ⟨"city"⟩ := by
    intro k _ n hn x hx
    have habove := htargets (k, n) (Std.ExtTreeMap.mem_toList_iff_getElem?_eq_some.2 hn) x hx
    exact reachable_paired.sound.wellFormed.treelike.mem_depthFirst.2 (.step habove .self)
  exact ⟨reachable_paired, hcity, hself, by decide +kernel,
    Site.Reachable.exported registerAll_library reachable_paired hcity hself⟩

end Examples

end DeltaForest
