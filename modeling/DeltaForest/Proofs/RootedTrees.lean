import DeltaForest.Proofs.Preorder
import DeltaForest.Proofs.Shuffled

/-!
# Rooted trees

When a list of nodes is a tree can be said without a word on how it is found out: ids are distinct,
what is owned is in the list, nothing is owned twice, one node is owned by none, and from it one
comes to all others (`Subtree.RootedAt`). What should become of such a list can be said as well
(`Subtree.Arranges`): the same nodes, the root first and as it was, every other node with a link to
its owner, all in preorder. There is only one subtree like that (`Subtree.Arranges.unique`).

Putting a subtree together from nodes does just this: it accepts the lists that are rooted trees and
no others, what it gives is the one arrangement, and the order of the list does not matter
(`Subtree.ofList_eq_ok_iff_rooted`).
-/

namespace DeltaForest

/-- A node without the link to the one above. -/
def Node.unlinked (n : Node) : Node := { n with parent := none }

theorem Node.eq_of_unlinked {n n' : Node} (h : n.unlinked = n'.unlinked)
    (hparent : n.parent = n'.parent) : n = n' := by
  obtain ⟨⟩ := n
  obtain ⟨⟩ := n'
  simp_all [unlinked]

namespace NodeTable

variable {t t' : NodeTable} {roots order order' : List NodeId}

/-- Only what nodes own matters to preorder. -/
theorem Preorder.congr (hsame : ∀ k : NodeId, t'[k]?.map Node.owned = t[k]?.map Node.owned)
    (h : t.Preorder roots order) : t'.Preorder roots order := by
  induction h with
  | nil => exact .nil
  | @cons id n _ _ _ hn _ _ ihbelow ihbeside =>
    obtain ⟨n', hn', howned⟩ : ∃ n', t'[id]? = some n' ∧ n'.owned = n.owned := by
      simpa [hn] using hsame id
    rw [← howned] at ihbelow
    exact .cons hn' ihbelow ihbeside

/-- There is one preorder only. -/
theorem Preorder.unique (h : t.Preorder roots order) (h' : t.Preorder roots order') :
    order = order' := by
  induction h generalizing order' with
  | nil =>
    cases h'
    rfl
  | cons hn _ _ ihbelow ihbeside =>
    obtain _ | ⟨hn', hbelow, hbeside⟩ := h'
    obtain rfl := Option.some.inj (hn.symm.trans hn')
    rw [ihbelow hbelow, ihbeside hbeside]

/-- Below a node that owns nothing there is nothing to list. -/
theorem Preorder.leaf {id : NodeId} {n : Node} (hn : t[id]? = some n) (howned : n.owned = [])
    (h : t.Preorder roots order) : t.Preorder (id :: roots) (id :: order) := by
  have hbelow : t.Preorder n.owned [] := by
    rw [howned]
    exact .nil
  exact .cons hn hbelow h

end NodeTable

namespace Subtree

/-- Nodes that are a tree with a root. -/
structure RootedAt (nodes : List Node) (root : Node) : Prop where
  distinct : (nodes.map Node.id).Nodup
  /-- What is owned is in the list. -/
  present : ∀ n ∈ nodes, ∀ k ∈ n.owned, k ∈ nodes.map Node.id
  /-- Nothing is owned twice, be it by one node or by two, as a child or as an annotation. -/
  once : (nodes.flatMap Node.owned).Nodup
  /-- The root is the one node that is owned by none. -/
  rooted : ∀ n, n = root ↔ n ∈ nodes ∧ ∀ owner ∈ nodes, n.id ∉ owner.owned
  /-- From the root one comes to all nodes. -/
  reached : ∀ n ∈ nodes, NodeTable.Under (.ofList nodes) root.id n.id

/-- A subtree that is made of nodes with a root. -/
structure Arranges (nodes : List Node) (root : Node) (s : Subtree) : Prop where
  /-- The root comes first and is as it was. -/
  first : s.root = root
  /-- The nodes are the same, with all that is on them but for links. -/
  same : (s.nodes.map Node.unlinked).Perm (nodes.map Node.unlinked)
  /-- All others have a link to the node that owns them. -/
  linked : ∀ n ∈ s.descendants, ∃ owner ∈ nodes, n.id ∈ owner.owned ∧ n.parent = some owner.id
  /-- Every node comes before what it owns, and all that is below it before its next sibling. -/
  preorder : (NodeTable.ofList nodes).Preorder [root.id] (s.nodes.map Node.id)

variable {nodes : List Node} {root : Node} {id : NodeId} {s s' : Subtree}

theorem map_snd_ownerships (nodes : List Node) :
    (ownerships nodes).map (·.2) = nodes.flatMap Node.owned := by
  rw [ownerships, List.map_flatMap]
  simp [Function.comp_def]

/-- No ownership is of a node that is owned by none. -/
theorem all_ownerships_ne :
    (ownerships nodes).all (·.2 ≠ id) = true ↔ ∀ owner ∈ nodes, id ∉ owner.owned := by
  rw [List.all_eq_true]
  constructor
  · intro h owner howner hid
    have hpair : (owner.id, id) ∈ ownerships nodes :=
      List.mem_flatMap.2 ⟨owner, howner, List.mem_map_of_mem hid⟩
    exact of_decide_eq_true (h _ hpair) rfl
  · intro h pair hpair
    obtain ⟨owner, howner, hmem⟩ := List.mem_flatMap.1 hpair
    obtain ⟨child, hchild, rfl⟩ := List.mem_map.1 hmem
    exact decide_eq_true fun heq => h owner howner (heq ▸ hchild)

/-! ## What has been put together -/

namespace Grown

variable (h : Grown nodes id s)

include h

/-- What a walk lists of a table are the nodes that have been put in. -/
theorem perm_gathered : (((NodeTable.ofList nodes).depthFirst id).filterMap fun k =>
    (NodeTable.ofList nodes)[k]?).Perm nodes := by
  have hnodup : (((NodeTable.ofList nodes).depthFirst id).filterMap fun k =>
      (NodeTable.ofList nodes)[k]?).Nodup := by
    refine NodeTable.nodup_depthFirst.filterMap fun k k' n hn hn' => ?_
    rw [← ((NodeTable.lookup_ofList_eq_some h.distinct).1 hn).2,
      ((NodeTable.lookup_ofList_eq_some h.distinct).1 hn').2]
  refine (List.perm_ext_iff_of_nodup hnodup (h.distinct.of_map _)).2 fun n => ?_
  rw [List.mem_filterMap]
  constructor
  · rintro ⟨k, -, hn⟩
    exact ((NodeTable.lookup_ofList_eq_some h.distinct).1 hn).1
  · intro hn
    exact ⟨n.id, h.mem_depthFirst.2 (List.mem_map_of_mem hn),
      (NodeTable.lookup_ofList_eq_some h.distinct).2 ⟨hn, rfl⟩⟩

theorem same_unlinked : (s.nodes.map Node.unlinked).Perm (nodes.map Node.unlinked) := by
  have hlink : Node.unlinked ∘ link (ownerships nodes) = Node.unlinked := by
    funext n
    rw [Function.comp_apply, link_eq]
    rfl
  rw [h.inOrder, List.map_map, hlink]
  exact h.perm_gathered.map _

/-- Only the root is owned by none. -/
theorem id_eq_root_iff {n : Node} (hn : n ∈ nodes) :
    n.id = id ↔ ∀ owner ∈ nodes, n.id ∉ owner.owned := by
  rw [← all_ownerships_ne, ← List.mem_singleton, ← h.rooted, List.mem_filter]
  exact and_iff_right (List.mem_map_of_mem hn)

/-- The root is one of the nodes, as it was. -/
theorem root_mem : s.root ∈ nodes := by
  have hroot : s.root ∈ s.nodes := List.mem_cons_self
  have hid := h.id_root
  rw [h.inOrder] at hroot
  obtain ⟨n, hn, heq⟩ := List.mem_map.1 hroot
  have hmem := h.perm_gathered.mem_iff.1 hn
  rw [← heq, id_link] at hid
  -- Nobody owns it, so its link is left alone.
  rw [link_eq, (h.owner_eq_none (List.mem_map_of_mem hmem)).2 hid, Option.none_or] at heq
  exact heq ▸ hmem

theorem rootedAt : RootedAt nodes s.root where
  distinct := h.distinct
  present n hn k hk :=
    h.present (n.id, k) (List.mem_flatMap.2 ⟨n, hn, List.mem_map_of_mem hk⟩)
  once := map_snd_ownerships nodes ▸ h.once
  rooted n := by
    constructor
    · rintro rfl
      exact ⟨h.root_mem, (h.id_eq_root_iff h.root_mem).1 h.id_root⟩
    · rintro ⟨hn, hfree⟩
      refine List.inj_on_of_nodup_map h.distinct hn h.root_mem ?_
      rw [(h.id_eq_root_iff hn).2 hfree, h.id_root]
  reached n hn := by
    rw [h.id_root]
    exact NodeTable.mem_depthFirst.1 (h.mem_depthFirst.2 (List.mem_map_of_mem hn))

theorem arranges : Arranges nodes s.root s where
  first := rfl
  same := h.same_unlinked
  linked n hn := by
    obtain ⟨p, hp⟩ := Option.isSome_iff_exists.1 (h.isTree.below n hn)
    -- In the table of the subtree the link leads to an owner, which is one of the nodes.
    have hd := h.distinct_nodes
    have hne : n.id ≠ s.root.id := fun heq => by
      rw [Subtree.nodes, List.map_cons, List.nodup_cons, ← heq] at hd
      exact hd.1 (List.mem_map_of_mem hn)
    have hlookup : (s.table none)[n.id]? = some n := by
      rw [lookup_table hd, (NodeTable.lookup_ofList_eq_some hd).2 ⟨List.mem_cons_of_mem _ hn, rfl⟩,
        Option.map_some, if_neg hne]
    have habove := h.above?_table.symm.trans ((NodeTable.above?_eq hlookup).trans hp)
    obtain ⟨owner, howner, hpair⟩ := List.mem_flatMap.1 ((owner_eq_some h.once).1 habove)
    obtain ⟨child, hchild, heq⟩ := List.mem_map.1 hpair
    cases heq
    exact ⟨owner, howner, hchild, hp⟩
  preorder := by
    have hroot : s.root.id ∈ s.table none :=
      (NodeTable.mem_table h.distinct_nodes).2 (List.mem_map_of_mem List.mem_cons_self)
    rw [h.isTree.ordered]
    refine NodeTable.Preorder.congr (fun k => ?_) (h.isTree.treelike.preorder_depthFirst hroot)
    rw [h.lookup_table_none, Option.map_map]
    congr 1
    funext n
    by_cases hk : k = id
    · simp only [Function.comp_apply, if_pos hk]
      exact owned_link.symm
    · simp [hk]

end Grown

/-! ## One arrangement for every rooted tree -/

/-- A list without repetitions that has one member. -/
theorem eq_singleton_of_nodup {α : Type} {l : List α} {a : α} (hd : l.Nodup)
    (h : ∀ b, b ∈ l ↔ b = a) : l = [a] :=
  List.perm_singleton.1 ((List.perm_ext_iff_of_nodup hd (List.nodup_singleton a)).2 fun b =>
    (h b).trans List.mem_singleton.symm)

namespace RootedAt

variable (h : RootedAt nodes root)

include h

theorem root_mem : root ∈ nodes := ((h.rooted root).1 rfl).1

theorem perm_depthFirst :
    ((NodeTable.ofList nodes).depthFirst root.id).Perm (nodes.map Node.id) := by
  refine (List.perm_ext_iff_of_nodup NodeTable.nodup_depthFirst h.distinct).2 fun k => ?_
  rw [NodeTable.mem_depthFirst]
  constructor
  · intro hunder
    cases hunder with
    | self => exact List.mem_map_of_mem h.root_mem
    | step _ hn hk => exact h.present _ ((NodeTable.lookup_ofList_eq_some h.distinct).1 hn).1 _ hk
  · intro hk
    obtain ⟨n, hn, rfl⟩ := List.mem_map.1 hk
    exact h.reached n hn

theorem exists_grown : ∃ s, Grown nodes root.id s := by
  obtain ⟨rest, hrest⟩ := NodeTable.depthFirst_eq_cons (.ofList nodes) root.id
  have hlookup := (NodeTable.lookup_ofList_eq_some h.distinct).2 ⟨h.root_mem, rfl⟩
  have hnodes := congrArg (List.filterMap fun k => (NodeTable.ofList nodes)[k]?) hrest
  rw [List.filterMap_cons, hlookup] at hnodes
  refine ⟨⟨link (ownerships nodes) root, (rest.filterMap fun k =>
    (NodeTable.ofList nodes)[k]?).map (link (ownerships nodes))⟩, h.distinct, ?_, ?_, ?_, ?_, ?_⟩
  · intro pair hpair
    obtain ⟨owner, howner, hmem⟩ := List.mem_flatMap.1 hpair
    obtain ⟨child, hchild, rfl⟩ := List.mem_map.1 hmem
    exact h.present owner howner child hchild
  · exact (map_snd_ownerships nodes).symm ▸ h.once
  · -- Exactly one node is owned by nobody.
    refine eq_singleton_of_nodup (h.distinct.filter _) fun k => ?_
    rw [List.mem_filter, all_ownerships_ne]
    constructor
    · rintro ⟨hk, hfree⟩
      obtain ⟨n, hn, rfl⟩ := List.mem_map.1 hk
      exact congrArg Node.id ((h.rooted n).2 ⟨hn, hfree⟩)
    · rintro rfl
      exact ⟨List.mem_map_of_mem h.root_mem, ((h.rooted root).1 rfl).2⟩
  · exact h.perm_depthFirst.length_eq.trans (List.length_map _)
  · rw [hnodes]
    rfl

/-- There is one owner only. -/
theorem id_owner_eq {owner owner' : Node} (howner : owner ∈ nodes) (howner' : owner' ∈ nodes)
    (hid : id ∈ owner.owned) (hid' : id ∈ owner'.owned) : owner.id = owner'.id := by
  have hpair {owner : Node} (howner : owner ∈ nodes) (hid : id ∈ owner.owned) :
      (owner.id, id) ∈ ownerships nodes :=
    List.mem_flatMap.2 ⟨owner, howner, List.mem_map_of_mem hid⟩
  have honce : ((ownerships nodes).map (·.2)).Nodup := (map_snd_ownerships nodes).symm ▸ h.once
  exact congrArg Prod.fst
    (List.inj_on_of_nodup_map honce (hpair howner hid) (hpair howner' hid') rfl)

/-- A descendant in an arrangement is known by its id. -/
theorem eq_of_id (hs : Arranges nodes root s) (hs' : Arranges nodes root s') {n n' : Node}
    (hn : n ∈ s.descendants) (hn' : n' ∈ s'.descendants) (hid : n.id = n'.id) : n = n' := by
  have hfrom {s : Subtree} (hs : Arranges nodes root s) {n : Node} (hn : n ∈ s.descendants) :
      ∃ m ∈ nodes, m.unlinked = n.unlinked :=
    List.mem_map.1 (hs.same.mem_iff.1 (List.mem_map_of_mem (List.mem_cons_of_mem _ hn)))
  obtain ⟨m, hm, hmn⟩ := hfrom hs hn
  obtain ⟨m', hm', hmn'⟩ := hfrom hs' hn'
  have hmid : m.id = n.id := congrArg (·.id) hmn
  have hmid' : m'.id = n'.id := congrArg (·.id) hmn'
  obtain rfl := List.inj_on_of_nodup_map h.distinct hm hm' (by rw [hmid, hmid', hid])
  -- They have the same things on them, and links to the one owner that there is.
  obtain ⟨owner, howner, hchild, hparent⟩ := hs.linked n hn
  obtain ⟨owner', howner', hchild', hparent'⟩ := hs'.linked n' hn'
  have howners := h.id_owner_eq howner howner' hchild (hid ▸ hchild')
  exact Node.eq_of_unlinked (hmn.symm.trans hmn') (by rw [hparent, hparent', howners])

/-- There is one arrangement only. -/
theorem arrangement_unique (hs : Arranges nodes root s) (hs' : Arranges nodes root s') :
    s = s' := by
  have hids : s.nodes.map Node.id = s'.nodes.map Node.id := hs.preorder.unique hs'.preorder
  rw [Subtree.nodes, Subtree.nodes, List.map_cons, List.map_cons] at hids
  have hrest := (List.cons.inj hids).2
  have hdescendants : s.descendants = s'.descendants := by
    have hlength : s.descendants.length = s'.descendants.length := by
      simpa using congrArg List.length hrest
    refine List.ext_getElem hlength fun i hi hi' => ?_
    refine h.eq_of_id hs hs' (List.getElem_mem hi) (List.getElem_mem hi') ?_
    simpa [hi, hi'] using congrArg (·[i]?) hrest
  obtain ⟨r, d⟩ := s
  obtain ⟨r', d'⟩ := s'
  exact congr (congrArg Subtree.mk (hs.first.trans hs'.first.symm)) hdescendants

end RootedAt

/-- From nodes comes the one arrangement of a rooted tree, or nothing. -/
theorem ofList_eq_ok_iff :
    ofList nodes = .ok s ↔ ∃ root, RootedAt nodes root ∧ Arranges nodes root s := by
  rw [ofList_eq_ok]
  constructor
  · rintro ⟨id, h⟩
    exact ⟨s.root, h.rootedAt, h.arranges⟩
  · rintro ⟨root, h, hs⟩
    obtain ⟨s', hgrown⟩ := h.exists_grown
    -- What has grown from the same nodes is arranged below the same root.
    have hroot : s'.root = root := by
      refine List.inj_on_of_nodup_map h.distinct hgrown.root_mem h.root_mem ?_
      exact hgrown.id_root
    obtain rfl := h.arrangement_unique hs (hroot ▸ hgrown.arranges)
    exact ⟨root.id, hgrown⟩

/-- Nodes are accepted if and only if they are a rooted tree, and what comes of them is their one
    arrangement: the same nodes in preorder, the root as it was and all others with links to their
    owners. In which order the nodes come matters neither to the one nor to the other. -/
theorem ofList_eq_ok_iff_rooted {nodes nodes' : List Node} (hp : nodes.Perm nodes') :
    (∀ s, ofList nodes = .ok s ↔ ∃ root, RootedAt nodes root ∧ Arranges nodes root s) ∧
      ((∃ s, ofList nodes = .ok s) ↔ ∃ root, RootedAt nodes root) ∧
      ∀ s, ofList nodes' = .ok s ↔ ofList nodes = .ok s := by
  refine ⟨fun s => ofList_eq_ok_iff, ?_, fun s => ⟨ofList_perm hp.symm, ofList_perm hp⟩⟩
  constructor
  · rintro ⟨s, hs⟩
    obtain ⟨root, hroot, -⟩ := ofList_eq_ok_iff.1 hs
    exact ⟨root, hroot⟩
  · rintro ⟨root, hroot⟩
    obtain ⟨s, hgrown⟩ := hroot.exists_grown
    exact ⟨s, ofList_eq_ok.2 ⟨root.id, hgrown⟩⟩

end Subtree

/-! ## A library from scattered nodes -/

namespace Examples

open Subtree

/-- The second book with a comment on it and a link that leads nowhere. -/
def reading : Node :=
  { sequel.root with annotations := [⟨"remark"⟩], parent := some ⟨"nowhere"⟩ }

/-- A library with two books, which stands below something else. -/
def hall : Node :=
  { (Node.bare ⟨"hall"⟩ ⟨0⟩).withChildren ⟨2⟩ [⟨"sequel"⟩, ⟨"novel"⟩] with
    parent := some ⟨"city"⟩ }

/-- The library, its books and the comment, in no particular order. -/
def scattered : List Node := [remark.root, novel.root, hall, reading]

/-- The library with its books, each with what is on it. -/
def furnished : Subtree :=
  ⟨hall, [{ reading with parent := some ⟨"hall"⟩ }, { remark.root with parent := some ⟨"sequel"⟩ },
    { novel.root with parent := some ⟨"hall"⟩ }]⟩

theorem rootedAt_scattered : RootedAt scattered hall where
  distinct := by decide
  present := by decide +kernel
  once := by decide +kernel
  rooted n := by
    have hfree : ∀ m ∈ scattered, (∀ owner ∈ scattered, m.id ∉ owner.owned) → m = hall := by
      decide +kernel
    constructor
    · rintro rfl
      decide +kernel
    · rintro ⟨hn, hnone⟩
      exact hfree n hn hnone
  reached := by
    -- Each of the others is reached from the hall, the remark by way of its book.
    have hbook : NodeTable.Under (.ofList scattered) hall.id reading.id :=
      .step .self (by decide +kernel : (NodeTable.ofList scattered)[hall.id]? = some hall)
        (by decide +kernel)
    have hother : NodeTable.Under (.ofList scattered) hall.id novel.root.id :=
      .step .self (by decide +kernel : (NodeTable.ofList scattered)[hall.id]? = some hall)
        (by decide +kernel)
    have hremark : NodeTable.Under (.ofList scattered) hall.id remark.root.id :=
      .step hbook (by decide +kernel : (NodeTable.ofList scattered)[reading.id]? = some reading)
        (by decide +kernel)
    exact List.forall_mem_cons.2 ⟨hremark, List.forall_mem_cons.2 ⟨hother,
      List.forall_mem_cons.2 ⟨.self, List.forall_mem_singleton.2 hbook⟩⟩⟩

theorem arranges_furnished : Arranges scattered hall furnished where
  first := rfl
  same := by decide +kernel
  linked := by decide +kernel
  preorder := by
    have hhall : hall.owned = [⟨"sequel"⟩, ⟨"novel"⟩] := by decide +kernel
    have hreading : reading.owned = [⟨"remark"⟩] := by decide +kernel
    -- Each node stands in front of those below it, and these in the order of their owner.
    have hremark : (NodeTable.ofList scattered).Preorder reading.owned [⟨"remark"⟩] := by
      rw [hreading]
      exact .leaf (n := remark.root) (by decide +kernel) (by decide +kernel) .nil
    have hbooks : (NodeTable.ofList scattered).Preorder hall.owned
        [⟨"sequel"⟩, ⟨"remark"⟩, ⟨"novel"⟩] := by
      rw [hhall]
      refine .cons (n := reading) (by decide +kernel) hremark ?_
      exact .leaf (n := novel.root) (by decide +kernel) (by decide +kernel) .nil
    exact .cons (n := hall) (by decide +kernel) hbooks .nil

/-- In whatever order the nodes of the library come, they are put together in the same way. -/
theorem rooted_scattered : scattered.Perm scattered.reverse ∧
    ofList scattered.reverse = .ok furnished := by
  have hp : scattered.Perm scattered.reverse := (List.reverse_perm scattered).symm
  obtain ⟨haccepted, -, hsame⟩ := ofList_eq_ok_iff_rooted hp
  exact ⟨hp, (hsame furnished).2
    ((haccepted furnished).2 ⟨hall, rootedAt_scattered, arranges_furnished⟩)⟩

end Examples

end DeltaForest
