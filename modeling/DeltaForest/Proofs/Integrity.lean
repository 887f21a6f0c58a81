import DeltaForest.Proofs.Reachable

/-!
# Where references point

The references of a table resolve if each of their targets is a registered node
(`NodeTable.Resolves`). Planning sees to that twice: what comes may point only at what is there or
comes along (`Supplied`), and what goes may not be pointed at by what stays (`Released`).

Each of the two looks at the nodes that are there before the change. A replacement is both: what
comes may point at what goes. Such a change is accepted and leaves a target behind that is not there
(`Change.Strands`), and it is the only one: an accepted change keeps references resolved exactly if
it does not strand one (`resolves_outcome_iff`).
-/

namespace DeltaForest

namespace NodeTable

variable {t t' : NodeTable} {tree : Subtree} {root k x : NodeId} {above : Option NodeId}

/-- Every target of every reference is there. -/
def Resolves (t : NodeTable) : Prop :=
  ∀ (k : NodeId) (n : Node), t[k]? = some n → ∀ x ∈ n.targets, x ∈ t

/-- What comes points at nothing but what is there and what comes along. -/
def Supplied (t : NodeTable) (tree : Subtree) : Prop :=
  ∀ n ∈ tree.nodes, ∀ x ∈ n.targets, x ∈ tree.nodes.map Node.id ∨ x ∈ t

/-- What stays does not point at a node or at what is below it. -/
def Released (t : NodeTable) (root : NodeId) : Prop :=
  ∀ (k : NodeId) (n : Node), t[k]? = some n → k ∉ t.depthFirst root →
    ∀ x ∈ n.targets, x ∉ t.depthFirst root

/-- The targets of a node are read off the node. -/
theorem targets?_eq_some {ts : List NodeId} :
    t.targets? k = some ts ↔ ∃ n, t[k]? = some n ∧ n.targets = ts := by
  rw [targets?, Option.map_eq_some_iff]

theorem mem_of_targets? (h : t'.targets? k = t.targets? k) : k ∈ t' ↔ k ∈ t := by
  rw [← Std.ExtTreeMap.isSome_getElem?_iff_mem, ← Std.ExtTreeMap.isSome_getElem?_iff_mem,
    ← isSome_targets?, ← isSome_targets?, h]

/-- Only the targets matter, and which nodes there are. -/
theorem resolves_congr (h : ∀ k, t'.targets? k = t.targets? k) : t'.Resolves ↔ t.Resolves := by
  have half {t t' : NodeTable} (h : ∀ k, t'.targets? k = t.targets? k) (ht : t.Resolves) :
      t'.Resolves := by
    intro k n hn x hx
    obtain ⟨m, hm, htargets⟩ := targets?_eq_some.1
      ((h k).symm.trans (targets?_eq_some.2 ⟨n, hn, rfl⟩))
    exact (mem_of_targets? (h x)).2 (ht k m hm x (htargets ▸ hx))
  exact ⟨half fun k => (h k).symm, half h⟩

/-- What goes is not pointed at by what stays. -/
theorem resolves_of_gone {gone : List NodeId}
    (htargets : ∀ k, t'.targets? k = if k ∈ gone then none else t.targets? k)
    (hout : ∀ (k : NodeId) (n : Node), t[k]? = some n → k ∉ gone → ∀ x ∈ n.targets, x ∉ gone)
    (h : t.Resolves) : t'.Resolves := by
  intro k n hn x hx
  have hk := (htargets k).symm.trans (targets?_eq_some.2 ⟨n, hn, rfl⟩)
  split at hk
  · simp at hk
  · next hstays =>
    obtain ⟨m, hm, hmn⟩ := targets?_eq_some.1 hk
    rw [← hmn] at hx
    -- What is targeted does not go, for nothing that stays refers to what goes.
    have hxt := htargets x
    rw [if_neg (hout k m hm hstays x hx)] at hxt
    exact (mem_of_targets? hxt).2 (h k m hm x hx)

/-- The targets in a subtree by its nodes. -/
theorem targets?_table (hd : (tree.nodes.map Node.id).Nodup) {ts : List NodeId} :
    (tree.table above).targets? k = some ts ↔ ∃ n ∈ tree.nodes, n.id = k ∧ n.targets = ts := by
  have hsame : (tree.table above).targets? k = (ofList tree.nodes).targets? k := by
    rw [targets?, Subtree.lookup_table hd, targets?, Option.map_map]
    congr 1
    funext n
    show Node.targets (if k = tree.root.id then _ else _) = _
    split <;> rfl
  rw [hsame, targets?_eq_some]
  simp only [lookup_ofList_eq_some hd, and_assoc]

/-- What comes must be supplied, and that is all there is to it. -/
theorem resolves_planted_iff (htree : tree.IsTree) (h : t.Resolves) :
    (t.planted tree above).Resolves ↔ t.Supplied tree := by
  have hd := htree.distinct
  constructor
  · intro hplanted n hn x hx
    have hnode : (t.planted tree above).targets? n.id = some n.targets := by
      rw [targets?_planted hd, (targets?_table hd).2 ⟨n, hn, rfl, rfl⟩]
      rfl
    obtain ⟨m, hm, hmn⟩ := targets?_eq_some.1 hnode
    exact (mem_planted hd).1 (hplanted n.id m hm x (hmn ▸ hx))
  · -- A node there afterwards is a node of the subtree or was there before.
    intro hs k n hn x hx
    rw [mem_planted hd]
    have hk := targets?_eq_some.2 ⟨n, hn, rfl⟩
    rw [targets?_planted hd] at hk
    rcases Option.or_eq_some_iff.1 hk with hk | ⟨-, hk⟩
    · obtain ⟨m, hm, -, hmn⟩ := (targets?_table hd).1 hk
      exact hs m hm x (hmn ▸ hx)
    · obtain ⟨m, hm, hmn⟩ := targets?_eq_some.1 hk
      exact .inr (h k m hm x (hmn ▸ hx))

/-- Targets that come along or are there are there afterwards. -/
theorem Supplied.attached {p : Place Seat} (htree : tree.IsTree) (hs : t.Supplied tree)
    (h : t.Resolves) : (t.attached p tree).Resolves :=
  (resolves_congr fun _ => targets?_inserted).2 ((resolves_planted_iff htree h).2 hs)

/-- Nobody who stays refers to what goes. -/
theorem Released.felled (hr : t.Released root) (h : t.Resolves) : (t.felled root).Resolves :=
  resolves_of_gone (fun _ => targets?_felled) hr h

end NodeTable

/-! ## Changes of shape -/

namespace Reshaping

open NodeTable

variable {t : NodeTable} {r : Reshaping}

/-- What planning makes sure of about references. -/
def Referable (t : NodeTable) : Reshaping → Prop
  | plant tree | attach _ tree => t.Supplied tree
  | fell root => t.Released root
  | detach _ old | moveAndReplace _ _ _ old => t.Released old
  | exchange _ tree old => t.Supplied tree ∧ t.Released old
  | move .. => True

/-- What comes points at something that goes. -/
def Strands (t : NodeTable) : Reshaping → Prop
  | exchange _ tree old => ∃ n ∈ tree.nodes, ∃ x ∈ n.targets, x ∈ t.depthFirst old
  | _ => False

/-- A replacement keeps references resolved if what comes does not point at what goes. -/
theorem resolves_exchanged_iff {p : Place Seat} {tree : Subtree} {old : NodeId} (ht : t.Treelike)
    (hp : t.at? p = some old) (hv : t.Vacant tree) (htree : tree.IsTree) (hs : t.Supplied tree)
    (hr : t.Released old) (h : t.Resolves) :
    (t.exchanged p tree old).Resolves ↔
      ¬∃ n ∈ tree.nodes, ∃ x ∈ n.targets, x ∈ t.depthFirst old := by
  have hsame : (t.replaced p tree.root.id).depthFirst old = t.depthFirst old :=
    depthFirst_withSeated (ht.owner_notMem_depthFirst hp)
  -- Once the old subtree is gone all is resolved, so it depends on the new one alone.
  have hcut : ((t.replaced p tree.root.id).felled old).Resolves :=
    resolves_of_gone (fun k => by rw [targets?_felled, targets?_replaced, hsame]) hr h
  have hmem (x : NodeId) : x ∈ (t.replaced p tree.root.id).felled old ↔
      x ∈ t ∧ x ∉ t.depthFirst old := by rw [mem_felled, mem_replaced, hsame]
  rw [NodeTable.exchanged, resolves_planted_iff htree hcut]
  constructor
  · rintro hsupplied ⟨n, hn, x, hx, hgone⟩
    -- The target cannot come with the new subtree, because its id was taken.
    rcases hsupplied n hn x hx with hcomes | hstays
    · have hold := (ht.mem_of_above? (ht.above?_of_at? hp)).1
      exact hv.notMem hcomes (ht.mem_of_mem_depthFirst hold hgone)
    · exact ((hmem x).1 hstays).2 hgone
  · intro hnot n hn x hx
    exact (hs n hn x hx).imp_right fun hxt =>
      (hmem x).2 ⟨hxt, fun hgone => hnot ⟨n, hn, x, hx, hgone⟩⟩

/-- References stay resolved unless one is stranded. -/
theorem resolves_outcome_iff (ht : t.Treelike) (hr : r.Fits t)
    (htree : ∀ tree ∈ r.incoming, tree.IsTree) (href : r.Referable t) (h : t.Resolves) :
    (r.outcome t).Resolves ↔ ¬r.Strands t := by
  -- Only an exchange can strand a reference. Everything else keeps all of them resolved.
  cases r with
  | plant tree =>
    exact iff_of_true ((resolves_planted_iff (htree tree List.mem_cons_self) h).2 href) not_false
  | fell root => exact iff_of_true (href.felled h) not_false
  | attach p tree => exact iff_of_true (href.attached (htree tree List.mem_cons_self) h) not_false
  | detach p old =>
    refine iff_of_true (resolves_of_gone (fun k => ?_) href h) not_false
    rw [outcome, NodeTable.detached, targets?_felled, targets?_removed]
    rw [show (t.removed p).depthFirst old = t.depthFirst old from
      depthFirst_withSeated (ht.owner_notMem_depthFirst hr)]
  | exchange p tree old =>
    exact resolves_exchanged_iff ht hr.1 hr.2 (htree tree List.mem_cons_self) href.1 href.2 h
  | move target source id =>
    refine iff_of_true ((resolves_congr fun k => ?_).2 h) not_false
    rw [outcome, NodeTable.moved, targets?_adopted, targets?_inserted, targets?_removed]
  | moveAndReplace target source id old =>
    obtain ⟨htarget, hs, -, hold⟩ := hr
    refine iff_of_true (resolves_of_gone (fun k => ?_) href h) not_false
    rw [outcome, NodeTable.movedAndReplaced, targets?_adopted, targets?_felled, targets?_removed,
      targets?_replaced, ht.depthFirst_of_move htarget hs hold]

end Reshaping

/-! ## Changes of single nodes -/

namespace NodeTable

variable {t t' : NodeTable} {p : Place Handle} {es : List Entry} {e : Entry} {id x : NodeId}
  {step : Node → Node}

/-- An edit of a node that leaves its references alone. -/
theorem Resolves.edited (h : t.Resolves) (hstep : ∀ n, (step n).references = n.references) :
    (t.edited id step).Resolves := by
  refine (resolves_congr fun k => ?_).2 h
  rw [targets?, lookup_edited, targets?]
  cases t[k]? with
  | none => rfl
  | some n =>
    have htargets : (step n).targets = n.targets := by rw [Node.targets, hstep, Node.targets]
    by_cases hk : id = k <;> simp [hk, htargets]

/-- The target of an entry of the table is there. -/
theorem Resolves.entry (h : t.Resolves) (he : e ∈ t.entriesAt p) (hx : e.target = some x) :
    x ∈ t := by
  rw [entriesAt] at he
  cases hn : t[p.owner]? with
  | none => simp [hn] at he
  | some n =>
    rw [hn] at he
    exact h p.owner n hn x ((Node.mem_targets _).2 ⟨p.feature, e, he, hx⟩)

/-- The targets of entries that are put into a reference have to be there. -/
theorem Resolves.withEntries (h : t.Resolves)
    (hes : ∀ e ∈ es, ∀ x, e.target = some x → x ∈ t) : (t.withEntries p es).Resolves := by
  intro k n hn x hx
  rw [NodeTable.withEntries, mem_edited]
  rw [NodeTable.withEntries, lookup_edited] at hn
  obtain ⟨m, hm, rfl⟩ := Option.map_eq_some_iff.1 hn
  -- Only the list at the place is new; the other targets were there before.
  split at hx
  · rw [Node.targets_prune] at hx
    obtain ⟨r, e, he, hex⟩ := (Node.mem_targets _).1 hx
    rw [Node.entries_withEntries] at he
    split at he
    · exact hes e he x hex
    · exact h k m hm x ((Node.mem_targets _).2 ⟨r, e, he, hex⟩)
  · exact h k m hm x hx

/-- An entry whose target is there may come. -/
theorem Resolves.entryInserted (h : t.Resolves) (he : ∀ x, e.target = some x → x ∈ t) :
    (t.entryInserted p e).Resolves := by
  refine h.withEntries fun e' he' x hx => ?_
  rcases List.eq_or_mem_of_mem_insertIdx he' with rfl | he'
  · exact he x hx
  · exact h.entry he' hx

theorem Resolves.entryRemoved (h : t.Resolves) : (t.entryRemoved p).Resolves :=
  h.withEntries fun _ he _ hx => h.entry (List.mem_of_mem_eraseIdx he) hx

/-- An entry may be replaced by one whose target is there. -/
theorem Resolves.entryReplaced (h : t.Resolves) (he : ∀ x, e.target = some x → x ∈ t) :
    (t.entryReplaced p e).Resolves := by
  refine h.withEntries fun e' he' x hx => ?_
  rcases List.mem_or_eq_of_mem_set he' with he' | rfl
  · exact h.entry he' hx
  · exact he x hx

/-- An edit of an entry may put in a target that is there. -/
theorem Resolves.entryEdited {step : Entry → Entry} (h : t.Resolves)
    (hstep : ∀ e x, (step e).target = some x → e.target = some x ∨ x ∈ t) :
    (t.entryEdited p step).Resolves := by
  rw [NodeTable.entryEdited]
  split
  · next e he =>
    refine h.entryReplaced fun x hx => ?_
    rcases hstep e x hx with hx | hx
    · exact h.entry (List.mem_of_getElem? he) hx
    · exact hx
  · exact h

end NodeTable

namespace Model

variable {m : Model} {tree : Subtree} {e : Entry} {root : NodeId}

/-- The check of nodes that come looks for their targets among them and in the table. -/
theorem supplied_of_checkNew (h : m.checkNew tree = .ok ()) : m.nodes.Supplied tree := by
  intro n hn x hx
  obtain ⟨r, e, he, hex⟩ := (Node.mem_targets n).1 hx
  obtain ⟨-, -, -, hreferences, -⟩ := checkNewNode_eq_ok.1 ((checkNew_eq_ok.1 h).2 n hn)
  cases hr : n.references[r]? with
  | none => simp [Node.entries, hr] at he
  | some es =>
    have hmem : e ∈ es := by simpa [Node.entries, hr] using he
    exact (checkNewEntry_eq_ok.1 ((hreferences r es hr).2 e hmem)).2 x hex

/-- A subtree leaves only if no node outside refers to a node in it. -/
theorem released_of_leaving (hk : m.nodes.Keyed) (h : m.leaving root = .ok tree) :
    m.nodes.Released root := by
  obtain ⟨hcollect, hout⟩ := leaving_eq_ok.1 h
  rw [NodeTable.ids_collect hk hcollect] at hout
  exact hout

end Model

namespace Change

variable {m : Model} {c : Change} {r : Reshaping}

/-- What comes points at something that goes. -/
def Strands : Change → Prop
  | childReplaced _ new old | annotationReplaced _ new old =>
    ∃ n ∈ new.nodes, ∃ x ∈ n.targets, x ∈ old.nodes.map Node.id
  | _ => False

/-- A reshaping that fits is checked for its targets, before it is made. -/
theorem referable_of_reshaping (hk : m.nodes.Keyed) (hc : c.Fits m) (h : c.reshaping? = some r) :
    r.Referable m.nodes := by
  cases c <;> cases h
  case partitionAdded | childAdded | annotationAdded => exact Model.supplied_of_checkNew hc.2
  case partitionDeleted | childDeleted | annotationDeleted =>
    exact Model.released_of_leaving hk hc.2
  case childReplaced | annotationReplaced =>
    exact ⟨Model.supplied_of_checkNew hc.2.1, Model.released_of_leaving hk hc.2.2⟩
  case childMoved | annotationMoved => exact trivial
  case childMovedAndReplaced | annotationMovedAndReplaced =>
    exact Model.released_of_leaving hk hc.2.2.2.2.1

/-- A change leaves a target behind if its reshaping does. -/
theorem strands_iff_of_reshaping (hk : m.nodes.Keyed) (hc : c.Fits m)
    (h : c.reshaping? = some r) : c.Strands ↔ r.Strands m.nodes := by
  cases c <;> cases h
  case childReplaced place new old | annotationReplaced place new old =>
    rw [Strands, NodeTable.ids_collect hk (Model.leaving_eq_ok.1 hc.2.2).1]
    rfl
  all_goals rfl

/-- A change that edits single nodes sets only targets that are there. -/
theorem resolves_of_content (hc : c.Fits m) (h : c.reshaping? = none) (hr : m.nodes.Resolves) :
    (c.outcome m.nodes).Resolves := by
  -- No node comes or goes, so the new entries alone are to be looked at.
  cases c <;> cases h
  case classifierChanged | propertyAdded | propertyChanged | propertyDeleted =>
    exact hr.edited fun _ => rfl
  case entryAdded place new =>
    exact hr.entryInserted fun x hx => (Model.checkEntry_eq_ok.1 hc.2).2 x hx
  case entryDeleted => exact hr.entryRemoved
  case entryChanged place new old =>
    exact hr.entryReplaced fun x hx => (Model.checkEntry_eq_ok.1 hc.2).2 x hx
  case entryMoved shift moved =>
    -- The entry that is moved was there before, and so was its target.
    have hmoved := List.mem_of_getElem? (Model.entriesAt_of_entryAt hc.2.1).2
    exact hr.entryRemoved.entryInserted fun x hx =>
      NodeTable.mem_edited.2 (hr.entry hmoved hx)
  case entryMovedAndReplaced shift moved old =>
    have hmoved := List.mem_of_getElem? (Model.entriesAt_of_entryAt hc.1).2
    have hread : (m.nodes.edited shift.source.owner fun n => n).Resolves := hr.edited fun _ => rfl
    exact (hread.entryReplaced fun x hx => NodeTable.mem_edited.2 (hr.entry hmoved hx)).entryRemoved
  case resolveInfoAdded | resolveInfoDeleted | resolveInfoChanged =>
    exact hr.entryEdited fun e x hx => .inl hx
  case targetDeleted => exact hr.entryEdited fun e x hx => nomatch hx
  case targetAdded place new info | targetChanged place new info old =>
    exact hr.entryEdited fun e x hx => .inr (Option.some.inj hx ▸ hc.2)

/-- An accepted change keeps references resolved exactly if it does not strand one. -/
theorem resolves_outcome_iff (ht : m.nodes.Treelike) (hc : c.Fits m)
    (htree : ∀ tree ∈ c.incoming, tree.IsTree) (h : m.nodes.Resolves) :
    (c.outcome m.nodes).Resolves ↔ ¬c.Strands := by
  cases hr : c.reshaping? with
  | none =>
    refine iff_of_true (resolves_of_content hc hr h) fun hstrands => ?_
    cases c <;> first | exact hstrands | cases hr
  | some r =>
    rw [outcome_of_reshaping hr, strands_iff_of_reshaping ht.keyed hc hr,
      Reshaping.resolves_outcome_iff ht (fits_of_reshaping ht hc hr)
        (incoming_of_reshaping hr ▸ htree) (referable_of_reshaping ht.keyed hc hr) h]

end Change

/-! ## Whatever comes about -/

theorem NodeTable.resolves_empty : NodeTable.Resolves ∅ := fun k n hn => by simp at hn

namespace Site.Reachable

variable {types : TypeRegistry} {site : Site} {past : List Checkpoint} {made : List Change}
  (h : Site.Reachable types site past made)

include h

/-- As long as no change strands a reference, all references resolve. -/
theorem resolves_of_made (hmade : ∀ c ∈ made, ¬c.Strands) : site.forest.nodes.Resolves := by
  refine (h.invariant NodeTable.resolves_empty (fun f c _ hf hresolves hc hreplan htree => ?_)
    hmade).1
  exact (Change.resolves_outcome_iff hf.treelike (Model.fits_of_replan hreplan) htree
    hresolves).2 hc

/-- Where a change is made, references stay resolved exactly if it does not strand one. -/
theorem resolves_apply_iff {c : Change} {f' : Forest} (hin : ∀ tree ∈ c.incoming, tree.Obtainable)
    (hresolves : site.forest.nodes.Resolves)
    (happly : Forest.Action.apply c site.forest = .ok () f') : f'.nodes.Resolves ↔ ¬c.Strands := by
  have hsound := h.sound
  have htree := fun tree ht => (hin tree ht).isTree
  obtain ⟨hreplan, rfl⟩ := (Forest.Action.apply_eq_ok hsound.wellFormed.treelike htree).1 happly
  exact Change.resolves_outcome_iff hsound.wellFormed.treelike (Model.fits_of_replan hreplan)
    htree hresolves

/-- References resolve as long as no change strands one. A change that does is accepted
    nevertheless, and afterwards they do not. -/
theorem resolves : ((∀ c ∈ made, ¬c.Strands) → site.forest.nodes.Resolves) ∧
    ∀ c f', (∀ tree ∈ c.incoming, tree.Obtainable) → site.forest.nodes.Resolves →
      Forest.Action.apply c site.forest = .ok () f' → (f'.nodes.Resolves ↔ ¬c.Strands) :=
  ⟨h.resolves_of_made, fun _ _ => h.resolves_apply_iff⟩

end Site.Reachable

/-! ## A book whose successor refers to it -/

namespace Examples

theorem obtainable_succession : ∀ tree ∈ succession.incoming, tree.Obtainable :=
  List.forall_mem_singleton.2 (obtainable_of_leaf rfl)

theorem strands_succession : succession.Strands :=
  ⟨_, List.mem_cons_self, ⟨"novel"⟩, by decide +kernel, List.mem_cons_self⟩

theorem apply_succession :
    Forest.Action.apply succession stocked.forest = .ok () (stocked.forest.changed succession) := by
  have hleaving : stocked.forest.model.leaving ⟨"novel"⟩ = .ok shelved := by
    rw [Model.leaving, NodeTable.collect_of_leaf rfl rfl]
    rfl
  have hreplan : stocked.forest.model.replan succession = .ok succession :=
    Model.planReplaceChild_eq_ok.2
      ⟨by decide +kernel, by decide +kernel, _, hleaving, rfl⟩
  have htree := fun tree ht => (obtainable_succession tree ht).isTree
  exact (Forest.Action.apply_eq_ok reachable_stocked.sound.wellFormed.treelike htree).2
    ⟨hreplan, rfl⟩

theorem calm_stocked : ∀ c ∈ [opening, shelving], ¬c.Strands := by
  intro c hc
  rcases List.mem_pair.1 hc with rfl | rfl <;> exact not_false

theorem resolves_stocked : Site.Reachable libraryTypes stocked [] [opening, shelving] ∧
    stocked.forest.nodes.Resolves ∧ ¬(stocked.forest.changed succession).nodes.Resolves := by
  obtain ⟨hcalm, hexact⟩ := Site.Reachable.resolves reachable_stocked
  have hresolves := hcalm calm_stocked
  refine ⟨reachable_stocked, hresolves, fun hafter => ?_⟩
  exact (hexact succession _ obtainable_succession hresolves apply_succession).1 hafter
    strands_succession

/-- A site that has come about and in which a reference points at a node that is not there. -/
theorem exists_dangling : ∃ types site past made, Site.Reachable types site past made ∧
    ¬site.forest.nodes.Resolves := by
  refine ⟨libraryTypes, Call.after stocked (.apply succession), [], _,
    .call (.apply succession) reachable_stocked obtainable_succession, fun hafter => ?_⟩
  have hforest : (Call.after stocked (.apply succession)).forest =
      stocked.forest.changed succession := by
    rw [Call.after, Site.Action.onForest_of_ok apply_succession]
    rfl
  rw [hforest] at hafter
  exact (reachable_stocked.resolves_apply_iff obtainable_succession
    (reachable_stocked.resolves_of_made calm_stocked) apply_succession).1 hafter strands_succession

end Examples

end DeltaForest
