import DeltaForest.Proofs.Replaying
import Mathlib.Data.Set.Card

/-!
# What a replay leaves behind

The nodes of a forest are in one table, and nothing in it says to which partition a node belongs.
Both the numbers in the summary of a replay and the chunks that are written of the partitions come
from walks downwards. As every node has one topmost node (`NodeTable.HasTop`), and the topmost nodes
are the partitions, these walks meet every node of the forest once
(`Forest.WellFormed.perm_depthFirst`): the numbers add up to that of all nodes, and the chunks hold
each of them in one place.

This holds of the forest after any messages that are not refused. Nothing else can go wrong in a
replay: where no message is refused, the partitions can be counted and be written
(`Replayer.covers_of_accepted`).
-/

namespace DeltaForest

open Protocol

/-! ## Topmost nodes -/

/-- Of two ids without a link only one can be above a third one. -/
theorem Above.eq_of_tops {up : NodeId → Option NodeId} {a b k : NodeId} (ha : Above up a k)
    (hb : Above up b k) (hupa : up a = none) (hupb : up b = none) : a = b := by
  induction ha with
  | self => exact (above_iff_of_top hupa).1 hb
  | step hp _ ih =>
    rcases above_iff.1 hb with rfl | ⟨q, hq, hb'⟩
    · rw [hupb] at hp
      cases hp
    · obtain rfl := Option.some.inj (hp.symm.trans hq)
      exact ih hb'

namespace NodeTable

variable {t : NodeTable} {root k top top' : NodeId}

/-- The topmost node above a node. It is the node itself if there is none above. -/
def HasTop (t : NodeTable) (k top : NodeId) : Prop := Above t.above? top k ∧ t.IsTop top

theorem HasTop.unique (h : t.HasTop k top) (h' : t.HasTop k top') : top = top' :=
  h.1.eq_of_tops h'.1 h.2.2 h'.2.2

namespace Treelike

variable (ht : t.Treelike)

include ht

/-- Downwards from a topmost node one meets the nodes that have it as theirs. -/
theorem mem_depthFirst_iff_hasTop (hroot : t.IsTop root) :
    k ∈ t.depthFirst root ↔ k ∈ t ∧ t.HasTop k root :=
  ⟨fun hk => ⟨ht.mem_of_mem_depthFirst hroot.1 hk, ht.mem_depthFirst.1 hk, hroot⟩,
    fun hk => ht.mem_depthFirst.2 hk.2.1⟩

theorem length_depthFirst (hroot : t.IsTop root) :
    (t.depthFirst root).length = {k | k ∈ t ∧ t.HasTop k root}.ncard := by
  have hset : {k | k ∈ t ∧ t.HasTop k root} = ((t.depthFirst root).toFinset : Set NodeId) := by
    ext k
    rw [Set.mem_ofPred_eq, ← ht.mem_depthFirst_iff_hasTop hroot, Finset.mem_coe, List.mem_toFinset]
  rw [hset, Set.ncard_coe_finset, List.toFinset_card_of_nodup nodup_depthFirst]

end Treelike

end NodeTable

/-- Downwards from all partitions every node is met once. -/
theorem Forest.WellFormed.perm_depthFirst {f : Forest} (h : f.WellFormed) :
    (f.partitions.flatMap f.nodes.depthFirst).Perm f.nodes.keys := by
  have hmem {root k : NodeId} (hroot : root ∈ f.partitions) :
      k ∈ f.nodes.depthFirst root ↔ k ∈ f.nodes ∧ f.nodes.HasTop k root :=
    h.treelike.mem_depthFirst_iff_hasTop ((h.roots root).1 hroot)
  -- Two partitions share no node, for a node has one top only.
  have hdistinct : (f.partitions.flatMap f.nodes.depthFirst).Nodup := by
    refine List.nodup_flatMap.2 ⟨fun _ _ => NodeTable.nodup_depthFirst, ?_⟩
    refine h.distinct.imp_of_mem fun hroot hroot' hne k hk hk' => hne ?_
    exact ((hmem hroot).1 hk).2.unique ((hmem hroot').1 hk').2
  refine (List.perm_ext_iff_of_nodup hdistinct Std.ExtTreeMap.nodup_keys).2 fun k => ?_
  rw [List.mem_flatMap, Std.ExtTreeMap.mem_keys]
  constructor
  · rintro ⟨root, hroot, hk⟩
    exact ((hmem hroot).1 hk).1
  · intro hk
    obtain ⟨top, htop⟩ := h.treelike.exists_top hk
    have hroot := (h.roots top).2 htop.2
    exact ⟨top, hroot, (hmem hroot).2 ⟨hk, htop⟩⟩

/-! ## Chunks of partitions -/

/-- A chunk holds the nodes that have one of them as their topmost one, beginning with it. -/
structure Chunk.HoldsPartition (m : Model) (root : NodeId) (chunk : Chunk) : Prop where
  first : (chunk.items.map (·.id)).head? = some root
  ids : ∀ k, k ∈ chunk.items.map (·.id) ↔ k ∈ m.nodes ∧ m.nodes.HasTop k root
  items : ∀ item ∈ chunk.items,
    ∃ n, m.nodes[item.id]? = some n ∧ Chunk.Item.ofNode m.types n = .ok item

theorem Chunk.Item.id_of_ofNode {types : TypeRegistry} {n : Node} {item : Item}
    (h : Item.ofNode types n = .ok item) : item.id = n.id := by
  simp only [Item.ofNode, bind_eq_ok, pure_eq_ok, Except.ok.injEq] at h
  obtain ⟨_, _, _, _, _, _, _, _, rfl⟩ := h
  rfl

namespace Model

variable {m : Model} {root : NodeId} {chunk : Chunk}

theorem chunk_eq_ok : m.chunk root = .ok chunk ↔ ∃ tree, m.nodes.collect root = .ok tree ∧
    tree.nodes.mapM (Chunk.Item.ofNode m.types) = .ok chunk.items := by
  simp only [Model.chunk, Chunk.ofSubtree, bind_eq_ok, pure_eq_ok, Except.ok.injEq]
  constructor
  · rintro ⟨tree, htree, items, hitems, rfl⟩
    exact ⟨tree, htree, hitems⟩
  · rintro ⟨tree, htree, hitems⟩
    exact ⟨tree, htree, _, hitems, rfl⟩

variable (ht : m.nodes.Treelike) (h : m.chunk root = .ok chunk)

include ht h

/-- The items of a chunk stand in the order of the walk. -/
theorem ids_chunk : chunk.items.map (·.id) = m.nodes.depthFirst root := by
  obtain ⟨tree, htree, hitems⟩ := chunk_eq_ok.1 h
  rw [← NodeTable.ids_collect ht.keyed htree, ← List.forall₂_eq_eq_eq, List.forall₂_map_left_iff,
    List.forall₂_map_right_iff]
  exact (mapM_eq_ok.1 hitems).flip.imp fun _ _ hitem => Chunk.Item.id_of_ofNode hitem

theorem holdsPartition_chunk (hroot : m.nodes.IsTop root) : chunk.HoldsPartition m root where
  first := by
    obtain ⟨rest, hrest⟩ := NodeTable.depthFirst_eq_cons m.nodes root
    rw [ids_chunk ht h, hrest]
    rfl
  ids k := by rw [ids_chunk ht h, ht.mem_depthFirst_iff_hasTop hroot]
  items item hitem := by
    obtain ⟨tree, htree, hitems⟩ := chunk_eq_ok.1 h
    obtain ⟨n, hn, hwritten⟩ := exists_of_mem_mapM hitems item hitem
    rw [Chunk.Item.id_of_ofNode hwritten]
    exact ⟨n, (NodeTable.lookup_of_mem_collect ht.keyed htree hn).2, hwritten⟩

end Model

/-! ## Replays -/

namespace Replayer

/-- What a replay tells of the partitions covers the forest, and so do chunks that are written of
    them. -/
structure Covers (r : Replayer) (s : ReplaySummary) (chunks : List Chunk) : Prop where
  /-- The partitions are told of in their order, each with the number of nodes that have it as their
      topmost one. -/
  counted : s.partitions = r.forest.partitions.map fun root =>
    ⟨root, {k | k ∈ r.forest.nodes ∧ r.forest.nodes.HasTop k root}.ncard⟩
  total : (s.partitions.map (·.nodes)).sum = r.forest.nodes.size
  /-- There is one chunk for each partition, in the same order. -/
  written : List.Forall₂ (Chunk.HoldsPartition r.forest.model) r.forest.partitions chunks
  /-- Every node of the forest is in one of the chunks, and there once. -/
  once : (chunks.flatMap fun chunk => chunk.items.map (·.id)).Perm r.forest.nodes.keys

variable {types : TypeRegistry} {r : Replayer} {s : ReplaySummary} {chunks : List Chunk}

theorem partitions_eq_ok : r.partitions = .ok chunks ↔
    List.Forall₂ (fun root chunk => r.forest.model.chunk root = .ok chunk) r.forest.partitions
      chunks := by
  rw [partitions, mapM_eq_ok]
  refine iff_of_eq (congrArg (fun R => List.Forall₂ R _ _) (funext₂ fun root chunk => ?_))
  cases r.forest.model.chunk root <;> simp [Except.mapError]

theorem covers_of_wellFormed (hwell : r.forest.WellFormed)
    (hs : s.partitions = r.forest.partitions.map fun root =>
      ⟨root, (r.forest.nodes.depthFirst root).length⟩)
    (hchunks : r.partitions = .ok chunks) : r.Covers s chunks where
  counted := by
    rw [hs]
    refine List.map_congr_left fun root hroot => ?_
    rw [hwell.treelike.length_depthFirst ((hwell.roots root).1 hroot)]
  total := by
    rw [hs, List.map_map, ← Std.ExtTreeMap.length_keys, ← hwell.perm_depthFirst.length_eq,
      List.length_flatMap]
    rfl
  written := by
    have hroots : ∀ root ∈ r.forest.partitions, r.forest.nodes.IsTop root :=
      fun root => (hwell.roots root).1
    refine ((List.forall₂_and_left _ _).2 ⟨hroots, partitions_eq_ok.1 hchunks⟩).imp ?_
    exact fun root chunk h => Model.holdsPartition_chunk hwell.treelike h.2 h.1
  once := by
    -- A chunk lists the nodes of its partition in the order in which they are walked.
    have hids : chunks.map (fun chunk => chunk.items.map (·.id)) =
        r.forest.partitions.map r.forest.nodes.depthFirst := by
      rw [← List.forall₂_eq_eq_eq, List.forall₂_map_left_iff, List.forall₂_map_right_iff]
      exact (partitions_eq_ok.1 hchunks).flip.imp fun _ _ h => Model.ids_chunk hwell.treelike h
    rw [List.flatMap_def, hids, ← List.flatMap_def]
    exact hwell.perm_depthFirst

/-- Where no message is refused, a replay with an empty forest succeeds, and so does writing the
    partitions. What the replay tells of them covers the forest, and so do the chunks. -/
theorem covers_of_accepted {languages : List Language}
    (htypes : TypeRegistry.registerAll .empty languages = .ok types)
    {participation : ParticipationId} {enforcesOrder : Bool} {messages : List Message}
    (haccepted : ∀ index kind fault r, Action.replay messages
      (start types participation enforcesOrder) ≠ .error (.rejected index kind fault) r) :
    ∃ fates r s chunks, (start types participation enforcesOrder).Plays messages fates r ∧
      Action.replay messages (start types participation enforcesOrder) = .ok s r ∧
      r.partitions = .ok chunks ∧ r.Covers s chunks := by
  have halone : (start types participation enforcesOrder).Alone types :=
    alone_start participation enforcesOrder
  obtain ⟨hafter, hstops⟩ := Action.careful_replay htypes messages _ halone
  -- A replay stops at a message that is rejected and nowhere else.
  cases hreplay : Action.replay messages (start types participation enforcesOrder) with
  | error trouble r =>
    obtain ⟨index, kind, fault, rfl, -⟩ := hstops trouble r hreplay
    exact absurd hreplay (haccepted index kind fault r)
  | ok s r =>
    rw [hreplay] at hafter
    obtain ⟨fates, sums, hplays, -, -⟩ := Action.replay_eq_ok.1 hreplay
    obtain ⟨chunks, hchunks⟩ := (hafter.replayer_guarded htypes).exported
    have hwell := (reachable_of_plays hplays).sound.wellFormed
    obtain rfl := (EStateM.Result.ok.inj (hreplay.symm.trans (hplays.replay_eq hwell))).1
    exact ⟨fates, r, _, chunks, hplays, rfl, hchunks, covers_of_wellFormed hwell rfl hchunks⟩

end Replayer

/-! ## A library that is announced -/

namespace Examples

/-- None of the messages is refused. In the end there is one partition, and its two nodes can be
    written. -/
theorem covers_diary :
    TypeRegistry.registerAll .empty [library] = .ok libraryTypes ∧ ∃ r s chunks,
      Replayer.Action.replay diary (.start libraryTypes ⟨"client"⟩ true) = .ok s r ∧
      r.partitions = .ok chunks ∧ r.Covers s chunks ∧ r.forest.partitions = [⟨"city"⟩] ∧
      (s.partitions.map (·.nodes)).sum = 2 := by
  obtain ⟨r, hplays, hcity, hsize⟩ := exists_plays_diary
  have hreplay := hplays.replay_eq (Replayer.reachable_of_plays hplays).sound.wellFormed
  -- The replay is known to the end, so it rejects nothing.
  have haccepted : ∀ index kind fault r', Replayer.Action.replay diary
      (.start libraryTypes ⟨"client"⟩ true) ≠ .error (.rejected index kind fault) r' := by
    intro index kind fault r' h
    rw [hreplay] at h
    cases h
  obtain ⟨_, r', s, chunks, -, hreplay', hchunks, hcovers⟩ :=
    Replayer.covers_of_accepted registerAll_library haccepted
  obtain rfl : r = r' := (EStateM.Result.ok.inj (hreplay.symm.trans hreplay')).2
  exact ⟨registerAll_library, r, s, chunks, hreplay', hchunks, hcovers, hcity,
    hcovers.total.trans hsize⟩

end Examples

end DeltaForest
