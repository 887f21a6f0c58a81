import DeltaForest.Proofs.Replication
import DeltaForest.Proofs.Ruled

/-!
# Lists that are stored

Nodes that look the same are stored in the same way if no list that is empty is stored. Every edit
of a node leaves it so, and what is read of a message comes so (`Chunk.filled_toSubtree`). Only a
subtree that somebody has put together is stored as it comes, empty lists included.

An empty list that is stored therefore stands as it has come with some change that was made, and a
site stays without empty lists by a call just if the changes that the call makes bring none
(`Site.Reachable.canonical`).
-/

namespace DeltaForest

open Protocol

/-- A table of nodes all of whose lists hold something. -/
def NodeTable.Filled (t : NodeTable) : Prop :=
  ∀ (k : NodeId) (n : Node), t[k]? = some n → n.Filled

/-- Whether all lists of a node hold something does not depend on the node above it. -/
theorem Node.filled_link {n : Node} {parent : Option NodeId} :
    ({ n with parent := parent } : Node).Filled ↔ n.Filled :=
  ⟨fun h => ⟨h.containments, h.references⟩, fun h => ⟨h.containments, h.references⟩⟩

/-- A node that has come with a change, with some node above it. -/
def Change.BringsNode (c : Change) (n : Node) : Prop :=
  ∃ tree ∈ c.incoming, ∃ n' ∈ tree.nodes, n = { n' with parent := n.parent }

/-- A node that has come with a change that brings filled nodes only. -/
theorem Change.Filled.of_brings {c : Change} {n : Node} (h : c.Filled) (hn : c.BringsNode n) :
    n.Filled := by
  obtain ⟨tree, htree, n', hn', heq⟩ := hn
  rw [heq, Node.filled_link]
  exact h tree htree n' hn'

/-- Where all lists hold something, nodes that look the same are the same. -/
theorem NodeTable.Filled.eq_of_alike {t t' : NodeTable} (h : t.Filled) (h' : t'.Filled)
    (ha : t.Alike t') : t = t' := by
  have hpruned {t : NodeTable} (h : t.Filled) : t.pruned = t := by
    ext1 k
    rw [lookup_pruned]
    cases hn : t[k]? with
    | none => rfl
    | some n => exact congrArg some (Node.prune_eq_self_iff.2 (h k n hn))
  rw [← hpruned h, alike_iff.1 ha, hpruned h']

/-! ## What is read -/

namespace Node.Filled

variable {n : Node} {h : Handle}

theorem bare (id : NodeId) (classifier : Handle) : (Node.bare id classifier).Filled :=
  ⟨fun c => by simp [Node.bare], fun r => by simp [Node.bare]⟩

theorem withChildren (hn : n.Filled) {children : List NodeId} (hne : children ≠ []) :
    (n.withChildren h children).Filled where
  containments c := by
    rw [Node.withChildren, lookup_insert]
    split
    · exact fun heq => hne (Option.some.inj heq)
    · exact hn.containments c
  references := hn.references

theorem withEntries (hn : n.Filled) {entries : List Entry} (hne : entries ≠ []) :
    (n.withEntries h entries).Filled where
  containments := hn.containments
  references r := by
    rw [Node.withEntries, lookup_insert]
    split
    · exact fun heq => hne (Option.some.inj heq)
    · exact hn.references r

end Node.Filled

namespace Chunk

variable {types : TypeRegistry}

section Reading

variable {n n' : Node}

/-- Reading a property puts a value, or nothing. -/
theorem addProperty_cases {p : Property} (h : addProperty types n p = .ok n') :
    n' = n ∨ ∃ h v, n' = { n with properties := n.properties.insert h v } := by
  obtain ⟨info, -, h⟩ := bind_eq_ok.1 h
  split at h
  · obtain ⟨v, -, h⟩ := bind_eq_ok.1 h
    exact .inr ⟨_, v, (Except.ok.inj h).symm⟩
  · exact .inl (Except.ok.inj h).symm

/-- Reading a containment puts children, unless there are none. -/
theorem addContainment_cases {c : Containment} (h : addContainment types n c = .ok n') :
    n' = n ∨ c.children ≠ [] ∧ ∃ h, n' = n.withChildren h c.children := by
  obtain ⟨info, -, h⟩ := bind_eq_ok.1 h
  cases h
  split
  · exact .inl rfl
  · next hne => exact .inr ⟨mt List.isEmpty_iff.2 hne, _, rfl⟩

/-- Reading a reference puts entries, unless there are none. -/
theorem addReference_cases {r : Reference} (h : addReference types n r = .ok n') :
    n' = n ∨ r.entries ≠ [] ∧ ∃ h, n' = n.withEntries h r.entries := by
  obtain ⟨info, -, h⟩ := bind_eq_ok.1 h
  obtain ⟨-, h⟩ := guard_eq_ok.1 h
  cases h
  split
  · exact .inl rfl
  · next hne => exact .inr ⟨mt List.isEmpty_iff.2 hne, _, rfl⟩

/-- What holds of bare nodes, and still holds when something is put there, holds of every node that
    has travelled. -/
theorem of_toNode {P : Node → Prop} (hbare : ∀ id classifier, P (.bare id classifier))
    (hproperty : ∀ n h v, P n → P { n with properties := n.properties.insert h v })
    (hcontainment : ∀ n h children, children ≠ [] → P n → P (n.withChildren h children))
    (hreference : ∀ n h entries, entries ≠ [] → P n → P (n.withEntries h entries))
    (hannotations : ∀ n annotations, P n → P { n with annotations := annotations })
    {item : Item} (h : item.toNode types = .ok n) : P n := by
  obtain ⟨info, -, h⟩ := bind_eq_ok.1 h
  obtain ⟨n₁, h₁, h⟩ := bind_eq_ok.1 h
  obtain ⟨n₂, h₂, h⟩ := bind_eq_ok.1 h
  obtain ⟨n₃, h₃, h⟩ := bind_eq_ok.1 h
  cases h
  -- An item is read into a bare node, feature by feature.
  have hn₁ : P n₁ := by
    refine of_foldlM (fun n p n' hn hread => ?_) (hbare _ _) h₁
    obtain rfl | ⟨h, v, rfl⟩ := addProperty_cases hread
    · exact hn
    · exact hproperty n h v hn
  have hn₂ : P n₂ := by
    refine of_foldlM (fun n c n' hn hread => ?_) hn₁ h₂
    obtain rfl | ⟨hne, h, rfl⟩ := addContainment_cases hread
    · exact hn
    · exact hcontainment n h _ hne hn
  have hn₃ : P n₃ := by
    refine of_foldlM (fun n r n' hn hread => ?_) hn₂ h₃
    obtain rfl | ⟨hne, h, rfl⟩ := addReference_cases hread
    · exact hn
    · exact hreference n h _ hne hn
  exact hannotations n₃ _ hn₃

/-- A node that has travelled has no empty lists. -/
theorem filled_toNode {item : Item} (h : item.toNode types = .ok n) : n.Filled :=
  of_toNode .bare (fun _ _ _ hn => ⟨hn.containments, hn.references⟩)
    (fun _ _ _ hne hn => hn.withChildren hne) (fun _ _ _ hne hn => hn.withEntries hne)
    (fun _ _ hn => ⟨hn.containments, hn.references⟩) h

end Reading

/-- A subtree that has travelled has no empty lists. -/
theorem filled_toSubtree {chunk : Chunk} {known : NodeTable} {tree : Subtree}
    (h : chunk.toSubtree types known = .ok tree) : ∀ n ∈ tree.nodes, n.Filled := by
  obtain ⟨nodes, hnodes, hlist⟩ := exists_nodes_of_toSubtree h
  intro n hn
  obtain ⟨n', hn', heq⟩ := Subtree.exists_of_mem_ofList hlist hn
  obtain ⟨item, -, hitem⟩ := exists_of_mem_mapM hnodes n' hn'
  rw [heq, Node.filled_link]
  exact filled_toNode hitem

end Chunk

/-! ## Messages -/

namespace Forest.Action

variable {α : Type} {toRaised : Model → α → Except Fault Raised} {f f' : Forest}
  {parts : List α} {all : List Raised} {Q : Change → Prop}

/-- What holds of the change that any part is understood as, in whatever well-formed state, holds
    of all changes that parts are made as. -/
theorem forall_of_applyParts (hr : Reads toRaised)
    (hQ : ∀ {f : Forest} {part raised}, f.WellFormed → toRaised f.model part = .ok raised →
      Q raised.change)
    (h : f.WellFormed) (hall : applyParts toRaised parts f = .ok all f') :
    ∀ c ∈ all.map (·.change), Q c := by
  -- Each part is read in the forest that the parts in front of it have left.
  induction parts generalizing f all with
  | nil =>
    cases hall
    exact List.forall_mem_nil _
  | cons part parts ih =>
    cases hpart : toRaised f.model part with
    | error fault => rw [applyParts_cons_of_error hpart] at hall; cases hall
    | ok raised =>
      obtain ⟨hreplan, htree, -⟩ := apply_of_reads hr h hpart
      rw [applyParts_cons_of_ok hr h hpart] at hall
      split at hall
      · next rest f'' hrest =>
        cases hall
        exact List.forall_mem_cons.2
          ⟨hQ h hpart, ih (h.changed (Model.fits_of_replan hreplan) htree) hrest⟩
      · cases hall

end Forest.Action

/-- What holds of the change that any part is understood as holds of all that a message makes. -/
theorem Call.forall_madeOf {α : Type} {toRaised : Model → α → Except Fault Raised}
    {Q : Change → Prop} (hr : Reads toRaised)
    (hQ : ∀ {f : Forest} {part raised}, f.WellFormed → toRaised f.model part = .ok raised →
      Q raised.change)
    {f : Forest} (h : f.WellFormed) (parts : List α) : ∀ c ∈ madeOf toRaised parts f, Q c := by
  rw [madeOf, Forest.Action.applyAll]
  cases hall : Forest.Action.applyParts toRaised parts f with
  | ok all f' => exact Forest.Action.forall_of_applyParts hr hQ h hall
  | error fault f' => exact List.forall_mem_nil _

namespace Protocol

variable {f : Forest} {raised : Raised}

/-- A change that is planned from an edit brings no empty lists if all that the edit brings has been
    read from chunks. -/
theorem filled_of_plan {e : Edit} {c : Change} (h : f.WellFormed) (hplan : f.model.plan e = .ok c)
    (hread : ∀ tree ∈ e.incoming, ∃ chunk, f.model.resolveChunk chunk = .ok tree) : c.Filled := by
  intro tree htree
  rw [Model.incoming_of_plan h.treelike.keyed hplan] at htree
  obtain ⟨chunk, hchunk⟩ := hread tree htree
  exact Chunk.filled_toSubtree hchunk

theorem CommandPart.filled_of_toRaised {participation : ParticipationId} {part : CommandPart}
    (h : f.WellFormed) (hpart : part.toRaised participation f.model = .ok raised) :
    raised.change.Filled := by
  obtain ⟨c, hc, rfl⟩ := CommandPart.toRaised_eq_ok.1 hpart
  obtain ⟨e, he, hplan, -⟩ := Command.toChange_eq_ok.1 hc
  exact filled_of_plan h hplan (Command.exists_chunk_of_toEdit he)

theorem EventPart.filled_of_toRaised {part : EventPart} (h : f.WellFormed)
    (hpart : part.toRaised f.model = .ok raised) : raised.change.Filled := by
  obtain ⟨c, hc, rfl⟩ := EventPart.toRaised_eq_ok.1 hpart
  obtain ⟨e, he, hplan, -⟩ := Event.toChange_eq_ok.1 hc
  exact filled_of_plan h hplan (Event.exists_chunk_of_toEdit he)

end Protocol

/-- A call with which the caller puts nothing together brings no empty lists. -/
theorem Call.filled_made {site : Site} {call : Call} (h : site.forest.WellFormed)
    (hin : call.incoming = []) : ∀ c ∈ call.made site, c.Filled := by
  -- Only an edit brings a subtree that was not read, and here it brings none.
  cases call with
  | subscribe | unsubscribe => exact List.forall_mem_nil _
  | apply c | commit c =>
    have hnone : c.incoming = [] := hin
    have hc : c.Filled := fun tree htree => absurd (hnone ▸ htree) List.not_mem_nil
    rw [made]
    split
    · exact List.forall_mem_singleton.2 hc
    · exact List.forall_mem_nil _
  | receive participation message =>
    exact forall_madeOf (reads_commands participation) CommandPart.filled_of_toRaised h _
  | follow tracker message =>
    rw [made]
    split
    · exact forall_madeOf reads_events EventPart.filled_of_toRaised h _
    · exact List.forall_mem_nil _

/-! ## What is stored -/

/-- A node whose lists hold something, or that stands as it has come with one of some changes, is
    allowed. -/
def NodeRule.filledOrBrought (cs : List Change) : NodeRule where
  Allows n := n.Filled ∨ ∃ c ∈ cs, c.BringsNode n
  Seats _ _ _ := True
  linked := by
    rintro n (hn | ⟨c, hc, tree, htree, n', hn', heq⟩) parent
    · exact .inl (Node.filled_link.2 hn)
    · refine .inr ⟨c, hc, tree, htree, n', hn', ?_⟩
      rw [heq]
  seated _ _ := trivial
  withSeated _ _ := .inl (Node.filled_prune _)
  sublist _ _ := trivial

/-- What single edits leave is allowed: an edited node has no empty lists. -/
theorem NodeTable.Retouched.obeys {t t' : NodeTable} {cs : List Change} (h : t.Retouched t')
    (ht : t.Obeys (.filledOrBrought cs)) : t'.Obeys (.filledOrBrought cs) := by
  induction h with
  | self => exact ht
  | edited _ _ ih => exact ih.edited fun n _ _ => .inl (Node.filled_prune _)

/-- Where every node has no empty lists or stands as it has come with one of some changes, one of
    these changes leaves it so. -/
theorem Change.obeys_outcome {m : Model} {c : Change} {cs : List Change} (ht : m.nodes.Treelike)
    (hc : c.Fits m) (hin : c ∈ cs) (htree : ∀ tree ∈ c.incoming, tree.IsTree)
    (h : m.nodes.Obeys (.filledOrBrought cs)) :
    (c.outcome m.nodes).Obeys (.filledOrBrought cs) := by
  cases hr : c.reshaping? with
  | none => exact (retouched_outcome hr).obeys h
  | some r =>
    refine obeys_of_reshaping ht hc hr h ?_ htree fun tree htree n hn =>
      .inr ⟨c, hin, tree, htree, n, hn, rfl⟩
    cases r <;> first | exact trivial | exact fun _ _ => trivial

/-- A change leaves a forest without empty lists just if it brings none. -/
theorem Forest.filled_changed_iff {f : Forest} {c : Change} (h : f.WellFormed)
    (hreplan : f.model.replan c = .ok c) (htree : ∀ tree ∈ c.incoming, tree.IsTree)
    (hf : f.nodes.Filled) : (f.changed c).nodes.Filled ↔ c.Filled := by
  have hfits := Model.fits_of_replan hreplan
  constructor
  · intro hfilled tree hin n hn
    obtain ⟨parent, hlookup⟩ :=
      Change.lookup_incoming h.treelike hfits (htree tree hin) hin hn
    exact Node.filled_link.1 (hfilled _ _ hlookup)
  · intro hc k n hn
    have hobeys : (c.outcome f.nodes).Obeys (.filledOrBrought [c]) :=
      Change.obeys_outcome h.treelike hfits List.mem_cons_self htree
        fun k n hn => .inl (hf k n hn)
    -- A node there afterwards was there before or came with the change.
    rcases hobeys k n hn with hn | ⟨c', hc', hn⟩
    · exact hn
    · exact Change.Filled.of_brings (List.mem_singleton.1 hc' ▸ hc) hn

/-- How empty lists come to be stored at a site, and how they do not. -/
structure Site.Canonical (site : Site) (past : List Checkpoint) (made : List Change) : Prop where
  /-- A node with an empty list stands as it has come with a change, but for the node above. -/
  brought : ∀ (k : NodeId) (n : Node), site.forest.nodes[k]? = some n →
    n.Filled ∨ ∃ c ∈ made, c.BringsNode n
  /-- If no change has brought an empty list, none is stored. -/
  filled : (∀ c ∈ made, c.Filled) →
    site.forest.nodes.Filled ∧ ∀ checkpoint ∈ past, checkpoint.nodes.Filled
  /-- A site is left without empty lists just by those calls whose changes bring none. -/
  calls : site.forest.nodes.Filled → ∀ call : Call, (∀ tree ∈ call.incoming, tree.Obtainable) →
    ((call.after site).forest.nodes.Filled ↔ ∀ c ∈ call.made site, c.Filled)
  /-- Commands and events bring none. -/
  messages : ∀ call : Call, call.incoming = [] → ∀ c ∈ call.made site, c.Filled
  /-- Without empty lists, states that look the same are the same. -/
  same : site.forest.nodes.Filled → ∀ t : NodeTable, t.Filled → t.Alike site.forest.nodes →
    t = site.forest.nodes

namespace Site

variable {types : TypeRegistry} {site : Site} {past : List Checkpoint} {made : List Change}

/-- What has come about stores nodes without empty lists, or as they have come. -/
theorem Reachable.obeys_filledOrBrought (h : Site.Reachable types site past made) :
    site.forest.nodes.Obeys (.filledOrBrought made) ∧
      ∀ checkpoint ∈ past, checkpoint.nodes.Obeys (.filledOrBrought made) :=
  h.invariant (P := NodeTable.Obeys (.filledOrBrought made)) (Q := (· ∈ made))
    (NodeTable.obeys_empty _)
    (fun _ _ _ hwell hobeys hin hreplan htree =>
      Change.obeys_outcome hwell.treelike (Model.fits_of_replan hreplan) hin htree hobeys)
    fun _ hc => hc

/-- A call leaves a site without empty lists just if the changes that it makes bring none. -/
theorem Reachable.filled_after_iff (h : Site.Reachable types site past made) {call : Call}
    (hin : ∀ tree ∈ call.incoming, tree.Obtainable) (hf : site.forest.nodes.Filled) :
    (call.after site).forest.nodes.Filled ↔ ∀ c ∈ call.made site, c.Filled := by
  have hwell := h.sound.wellFormed
  have htree : ∀ tree ∈ call.incoming, tree.IsTree := fun tree ht => (hin tree ht).isTree
  have hfollows := Call.follows_after hwell htree
  constructor
  · intro hafter
    cases call with
    | apply c | commit c =>
      -- A change that is refused is not among those that are made.
      rw [Call.made] at hfollows ⊢
      split
      · next happly =>
        obtain ⟨⟨hreplan, -⟩, -, n, heq⟩ := happly ▸ hfollows
        rw [heq] at hafter
        exact List.forall_mem_singleton.2
          ((Forest.filled_changed_iff hwell hreplan htree hf).1 hafter)
      · exact List.forall_mem_nil _
    | _ => exact Call.filled_made hwell rfl
  · exact hfollows.invariant (P := NodeTable.Filled) (Q := Change.Filled)
      (fun _ _ _ hwell hf hc hreplan htree =>
        (Forest.filled_changed_iff hwell hreplan htree hf).2 hc) rfl hwell hf

/-- What has come about stores no empty list but as it has come with a change, and messages bring
    none. -/
theorem Reachable.canonical (h : Site.Reachable types site past made) :
    site.Canonical past made where
  brought := h.obeys_filledOrBrought.1
  filled hmade :=
    have hfilled {t : NodeTable} (ht : t.Obeys (.filledOrBrought made)) : t.Filled := by
      intro k n hn
      rcases ht k n hn with hn | ⟨c, hc, hn⟩
      · exact hn
      · exact (hmade c hc).of_brings hn
    ⟨hfilled h.obeys_filledOrBrought.1, fun c hc => hfilled (h.obeys_filledOrBrought.2 c hc)⟩
  calls hf _ hin := h.filled_after_iff hin hf
  messages _ := Call.filled_made h.sound.wellFormed
  same hf _ ht := ht.eq_of_alike hf

end Site

/-! ## A library with an empty list of books -/

namespace Examples

theorem filled_opening : opening.Filled :=
  List.forall_mem_singleton.2 (List.forall_mem_singleton.2 (.bare _ _))

theorem filled_shelving : shelving.Filled :=
  List.forall_mem_singleton.2 (List.forall_mem_singleton.2 (.bare _ _))

/-- The library and the book in it are stored without empty lists. -/
theorem canonical_stocked : Site.Reachable libraryTypes stocked [] [opening, shelving] ∧
    stocked.forest.nodes.Filled ∧ (⟨"city"⟩ : NodeId) ∈ stocked.forest.nodes :=
  ⟨reachable_stocked, ((Site.Reachable.canonical reachable_stocked).filled
    (List.forall_mem_cons.2 ⟨filled_opening, List.forall_mem_singleton.2 filled_shelving⟩)).1,
    by decide +kernel⟩

/-- A site with a library that has come with an empty list of books. -/
def founded : Site := Call.after (.empty libraryTypes) (.commit founding)

/-- The empty list is stored as it has come. -/
theorem exists_hollow :
    Site.Reachable libraryTypes founded [] [founding] ∧ ¬founded.forest.nodes.Filled := by
  refine ⟨.call (.commit founding) (.empty _)
    (List.forall_mem_singleton.2 (obtainable_of_leaf rfl)), fun hfilled => ?_⟩
  have hcity : founded.forest.nodes[(⟨"city"⟩ : NodeId)]? = some hollow.root := by decide +kernel
  exact (hfilled _ _ hcity).containments ⟨2⟩ rfl

end Examples

end DeltaForest
