import DeltaForest.Proofs.Typed

/-!
# Partitions and annotations

A node can be a partition or an annotation (`Role`) if its classifier entitles it to that. This is
looked at where nodes enter: a new partition has to be of a classifier of partitions, a new
annotation of one of annotations. Afterwards a node keeps its role or leaves the forest, and the
place of an annotation is taken by another annotation only. If classifiers stayed as they are, all
that is in a role would be entitled to it.

They do not. A change of a classifier is refused if the new one does not declare what the node has
something for; what the node is to the forest is not looked at. So a library that is a partition can
be made a book, and so can a comment on it (`Change.Deposes`). No other changes have this effect: an
accepted change leaves a role to those that are entitled to it exactly if it deposes nobody
(`Forest.entitled_outcome_iff`).
-/

namespace DeltaForest

/-- What a node can be other than the child of a node. -/
inductive Role
  | partition
  | annotation
  deriving DecidableEq

/-- Nodes of a classifier may be in a role. -/
def TypeRegistry.Entitles (types : TypeRegistry) (h : Handle) : Role → Prop
  | .partition => ∃ info, types.classifierAt h = .ok info ∧ info.isPartition = true
  | Role.annotation =>
    ∃ info, types.classifierAt h = .ok info ∧ info.kind = ClassifierKind.annotation

/-- A node is in a role. -/
def Forest.Serves (f : Forest) (id : NodeId) : Role → Prop
  | .partition => id ∈ f.partitions
  | Role.annotation => ∃ (owner : NodeId) (n : Node), f.nodes[owner]? = some n ∧ id ∈ n.annotations

/-- Every id in a role names a node of a classifier that entitles it. -/
def Forest.Entitled (f : Forest) (role : Role) : Prop :=
  ∀ id, f.Serves id role → ∃ n, f.nodes[id]? = some n ∧ f.types.Entitles n.classifier role

namespace Change

/-- A classifier that entitles to a role is given up for one that does not. -/
def Demotes (types : TypeRegistry) (role : Role) : Change → Prop
  | classifierChanged _ new old => types.Entitles old role ∧ ¬types.Entitles new role
  | _ => False

/-- A node in a role gets a classifier that does not entitle it. -/
def Deposes (f : Forest) (role : Role) : Change → Prop
  | classifierChanged id new _ => f.Serves id role ∧ ¬f.types.Entitles new role
  | _ => False

variable {f : Forest} {role : Role} {c : Change}

/-- Only a change of the classifier can depose somebody. -/
theorem category_of_deposes (h : c.Deposes f role) : c.category = .classifier := by
  rcases c
  case classifierChanged => rfl
  all_goals exact h.elim

/-- A change of the classifier leaves everybody in place. -/
theorem reshaping?_of_category (h : c.category = .classifier) : c.reshaping? = none := by
  rcases c <;> first | rfl | rcases h

end Change

/-! ## Tables -/

namespace NodeTable

variable {types : TypeRegistry} {t t' : NodeTable} {k : NodeId} {role : Role}

/-- A node of a table is in a role. -/
def Serves (t : NodeTable) (k : NodeId) : Role → Prop
  | .partition => t.IsTop k
  | Role.annotation => ∃ (owner : NodeId) (n : Node), t[owner]? = some n ∧ k ∈ n.annotations

/-- A table in which only entitled nodes are in a role. -/
def Entitled (types : TypeRegistry) (role : Role) (t : NodeTable) : Prop :=
  ∀ k, t.Serves k role → ∀ n, t[k]? = some n → types.Entitles n.classifier role

theorem entitled_empty (types : TypeRegistry) (role : Role) : Entitled types role ∅ :=
  fun k _ n hn => by simp at hn

/-- Whoever has a role is there. -/
theorem Treelike.mem_of_serves (h : t.Treelike) (hserves : t.Serves k role) : k ∈ t := by
  rcases role
  · exact hserves.1
  · obtain ⟨owner, n, hn, hk⟩ := hserves
    exact (h.mem_of_above? (h.above?_of_owned hn (n.mem_owned.2 ⟨.annotations, hk⟩))).1

/-- An edit of a node that leaves it where it is leaves it in its role. -/
theorem Retouched.serves_iff (h : t.Retouched t') : t'.Serves k role ↔ t.Serves k role := by
  rcases role
  · exact h.isTop_iff
  · induction h with
    | self => rfl
    | @edited t' id step _ hstep ih =>
      refine Iff.trans (exists_congr fun owner => ?_) ih
      rw [lookup_edited]
      rcases t'[owner]? with _ | n
      · simp
      · by_cases hid : id = owner <;> simp [hid, hstep.annotations]

/-- Another classifier of a node matters to a role if the node is in it. -/
theorem entitled_reclassified_iff {id : NodeId} {new : Handle} (hid : id ∈ t)
    (h : t.Entitled types role) :
    (t.edited id ({ · with classifier := new })).Entitled types role ↔
      (t.Serves id role → types.Entitles new role) := by
  have hsteady : Steady ({ · with classifier := new }) :=
    ⟨fun _ => rfl, fun _ => rfl, fun _ => rfl, fun _ => rfl⟩
  -- A new classifier moves nobody, so everybody serves as before.
  have hserves {k : NodeId} :
      (t.edited id ({ · with classifier := new })).Serves k role ↔ t.Serves k role :=
    (Retouched.self.edited hsteady).serves_iff
  have hlookup (k : NodeId) : (t.edited id ({ · with classifier := new }))[k]? =
      t[k]?.map fun n => if id = k then { n with classifier := new }.prune else n :=
    lookup_edited
  constructor
  · intro hafter hin
    obtain ⟨n, hn⟩ := mem_iff_exists.1 hid
    have hnew := hlookup id
    rw [hn, Option.map_some, if_pos rfl] at hnew
    exact hafter id (hserves.2 hin) _ hnew
  · intro hentitles k hin n' hn'
    rw [hlookup] at hn'
    obtain ⟨n, hn, rfl⟩ := Option.map_eq_some_iff.1 hn'
    split
    · next heq => exact hentitles (heq ▸ hserves.1 hin)
    · exact h k (hserves.1 hin) n hn

end NodeTable

namespace Forest

variable {f : Forest} {role : Role} {id : NodeId}

theorem WellFormed.serves_iff (h : f.WellFormed) : f.Serves id role ↔ f.nodes.Serves id role := by
  rcases role
  · exact h.roots id
  · exact Iff.rfl

theorem WellFormed.entitled_iff (h : f.WellFormed) :
    f.Entitled role ↔ f.nodes.Entitled f.types role := by
  constructor
  · intro hf k hserves n hn
    obtain ⟨n', hn', hentitles⟩ := hf k (h.serves_iff.2 hserves)
    obtain rfl := Option.some.inj (hn.symm.trans hn')
    exact hentitles
  · intro ht id hserves
    have hserves := h.serves_iff.1 hserves
    obtain ⟨n, hn⟩ := mem_iff_exists.1 (h.treelike.mem_of_serves hserves)
    exact ⟨n, hn, ht id hserves n hn⟩

end Forest

/-! ## What is there and what comes -/

/-- Nodes with classifiers that are known of them, and with annotations that may be such whatever
    classifiers are known of them. -/
def NodeRule.annotated (Known : NodeId → Handle → Prop) (Fit : Handle → Prop) : NodeRule where
  Allows n := Known n.id n.classifier ∧ ∀ a ∈ n.annotations, ∀ h, Known a h → Fit h
  Seats _ s ids := s = .annotations → ∀ a ∈ ids, ∀ h, Known a h → Fit h
  linked h _ := h
  seated h s := by
    rintro rfl
    exact h.2
  withSeated {n s ids} h hs := by
    rcases s with c | _
    · exact h
    · exact ⟨h.1, hs rfl⟩
  sublist hs hsub heq a ha := hs heq a (hsub.subset ha)

namespace NodeTable

variable {types : TypeRegistry} {t : NodeTable} {role : Role} {Known : NodeId → Handle → Prop}
variable {Fit : Handle → Prop} {owner a : NodeId} {h : Handle}

/-- What is seated among annotations may be there. -/
theorem Obeys.fit_of_seated (ht : t.Obeys (.annotated Known Fit))
    (ha : a ∈ t.seated owner .annotations) (hknown : Known a h) : Fit h := by
  obtain ⟨n, hn⟩ := mem_iff_exists.1 (mem_of_mem_seated ha)
  rw [seated_eq hn] at ha
  exact (ht owner n hn).2 a ha h hknown

/-- Nodes in a role are entitled to it if all that is known of the ones at the top and of the
    annotations entitles them. -/
theorem Obeys.entitled_of_tops
    (ht : t.Obeys (.annotated Known fun h => role = Role.annotation → types.Entitles h role))
    (hkeyed : t.Keyed)
    (htops : ∀ k, t.IsTop k → ∀ h, Known k h → role = .partition → types.Entitles h role) :
    t.Entitled types role := by
  intro k hserves n hn
  have hknown := (ht k n hn).1
  rw [hkeyed k n hn] at hknown
  rcases role
  · exact htops k hserves _ hknown rfl
  · obtain ⟨owner, n', hn', hk⟩ := hserves
    exact (ht owner n' hn').2 k hk _ hknown rfl

end NodeTable

namespace Change

/-- A classifier of a node that is there or comes with a change. -/
def Knows (t : NodeTable) (c : Change) (k : NodeId) (h : Handle) : Prop :=
  (∃ n, t[k]? = some n ∧ n.classifier = h) ∨
    ∃ tree ∈ c.incoming, ∃ n ∈ tree.nodes, n.id = k ∧ n.classifier = h

variable {t : NodeTable} {c : Change} {k : NodeId} {n : Node} {h : Handle} {tree : Subtree}

/-- One subtree comes at most. -/
theorem eq_of_mem_incoming {tree' : Subtree} (hin : tree ∈ c.incoming) (hin' : tree' ∈ c.incoming) :
    tree' = tree := by
  rcases c
  case partitionAdded | childAdded | childReplaced | annotationAdded | annotationReplaced =>
    exact (List.mem_singleton.1 hin').trans (List.mem_singleton.1 hin).symm
  all_goals exact absurd hin List.not_mem_nil

/-- Of a node that is there only its own classifier is known. -/
theorem classifier_of_knows (hv : ∀ tree ∈ c.incoming, t.Vacant tree) (hn : t[k]? = some n)
    (hknows : c.Knows t k h) : n.classifier = h := by
  rcases hknows with ⟨n', hn', rfl⟩ | ⟨tree, hin, n', hmem, rfl, -⟩
  · rw [Option.some.inj (hn.symm.trans hn')]
  · exact absurd (mem_of_lookup hn) (hv tree hin n' hmem)

/-- Of a node that comes only its own classifier is known. -/
theorem exists_of_knows (hv : ∀ tree ∈ c.incoming, t.Vacant tree) (hin : tree ∈ c.incoming)
    (hk : k ∈ tree.nodes.map Node.id) (hknows : c.Knows t k h) :
    ∃ n ∈ tree.nodes, n.id = k ∧ n.classifier = h := by
  rcases hknows with ⟨n', hn', -⟩ | ⟨tree', hin', hn'⟩
  · exact absurd (mem_of_lookup hn') ((hv tree hin).notMem hk)
  · rwa [eq_of_mem_incoming hin hin'] at hn'

/-- What a change knows of the root of a subtree that comes is its classifier. -/
theorem root_of_knows (hv : ∀ tree ∈ c.incoming, t.Vacant tree) (hin : tree ∈ c.incoming)
    (htree : tree.IsTree) (hknows : c.Knows t tree.root.id h) : tree.root.classifier = h := by
  obtain ⟨n, hn, hid, rfl⟩ := exists_of_knows hv hin (List.mem_map_of_mem List.mem_cons_self) hknows
  rw [List.inj_on_of_nodup_map htree.distinct hn List.mem_cons_self hid]

end Change

/-- What a node of a tree owns is in the tree. -/
theorem Subtree.IsTree.mem_of_owned {tree : Subtree} {n : Node} {a : NodeId} (h : tree.IsTree)
    (hn : n ∈ tree.nodes) (ha : a ∈ n.owned) : a ∈ tree.nodes.map Node.id := by
  obtain ⟨n', hn', howned⟩ : ∃ n', (tree.table none)[n.id]? = some n' ∧ n'.owned = n.owned := by
    rw [Subtree.lookup_table h.distinct, (NodeTable.lookup_ofList_eq_some h.distinct).2 ⟨hn, rfl⟩]
    refine ⟨_, rfl, ?_⟩
    dsimp only
    split <;> rfl
  have habove := h.treelike.above?_of_owned hn' (howned ▸ ha)
  exact (NodeTable.mem_table h.distinct).1 (h.treelike.mem_of_above? habove).1

/-! ## Changes -/

/-- The annotations in a subtree that may enter are entitled to be such. -/
theorem Model.entitles_of_checkNew {m : Model} {tree : Subtree} {n a : Node}
    (h : m.checkNew tree = .ok ()) (htree : tree.IsTree) (hn : n ∈ tree.nodes)
    (ha : a ∈ tree.nodes) (hmem : a.id ∈ n.annotations) :
    m.types.Entitles a.classifier Role.annotation := by
  obtain ⟨-, -, -, -, hannotations⟩ := checkNewNode_eq_ok.1 ((checkNew_eq_ok.1 h).2 n hn)
  have hfind := (NodeTable.find?_eq_some htree.distinct).2 ⟨ha, rfl⟩
  exact checkAnnotation_eq_ok.1 (hannotations a.id hmem a hfind)

namespace Change

variable {m : Model} {c : Change} {r : Reshaping} {role : Role}

/-- What is asked of all nodes that a change deals with. -/
def entitling (m : Model) (role : Role) (c : Change) : NodeRule :=
  .annotated (c.Knows m.nodes) fun h => role = Role.annotation → m.types.Entitles h role

/-- Nodes that are there are as is asked of them. -/
theorem obeys_of_entitled (ht : m.nodes.Treelike) (hc : c.Fits m)
    (h : m.nodes.Entitled m.types role) : m.nodes.Obeys (c.entitling m role) := by
  intro k n hn
  refine ⟨.inl ⟨n, by rwa [ht.keyed k n hn], rfl⟩, ?_⟩
  rintro a ha x hknows rfl
  have hserves : m.nodes.Serves a Role.annotation := ⟨k, n, hn, ha⟩
  obtain ⟨n', hn'⟩ := mem_iff_exists.1 (ht.mem_of_serves hserves)
  exact classifier_of_knows (vacant_of_fits hc) hn' hknows ▸ h a hserves n' hn'

/-- Nodes that come are as is asked of them. -/
theorem allows_incoming (hc : c.Fits m) (htree : ∀ tree ∈ c.incoming, tree.IsTree) :
    ∀ tree ∈ c.incoming, ∀ n ∈ tree.nodes, (c.entitling m role).Allows n := by
  intro tree hin n hn
  refine ⟨.inr ⟨tree, hin, n, hn, rfl, rfl⟩, ?_⟩
  rintro a ha x hknows rfl
  have hmem := (htree tree hin).mem_of_owned hn (n.mem_owned.2 ⟨.annotations, ha⟩)
  obtain ⟨n', hn', rfl, rfl⟩ := exists_of_knows (vacant_of_fits hc) hin hmem hknows
  exact Model.entitles_of_checkNew (checkNew_of_fits hc tree hin) (htree tree hin) hn hn' ha

/-- What comes to stand among annotations has been checked, or has stood among annotations
    before. -/
theorem suits_entitling (hc : c.Fits m) (hp : c.Permitted m)
    (htree : ∀ tree ∈ c.incoming, tree.IsTree) (h : m.nodes.Obeys (c.entitling m role))
    (hr : c.reshaping? = some r) : r.Suits (c.entitling m role) m.nodes := by
  have hv := vacant_of_fits hc
  have hroot {tree : Subtree} (hin : tree ∈ c.incoming)
      (hcheck : m.checkAnnotation tree.root = .ok ()) {x : Handle}
      (hknows : c.Knows m.nodes tree.root.id x) (hrole : role = Role.annotation) :
      m.types.Entitles x role := by
    rw [hrole, ← root_of_knows hv hin (htree tree hin) hknows]
    exact Model.checkAnnotation_eq_ok.1 hcheck
  -- Annotations alone are looked at: they were there, or the check has seen them.
  rcases c <;> rcases hr
  case annotationAdded place new =>
    intro n _ _ a ha x
    rcases List.eq_or_mem_of_mem_insertIdx ha with rfl | ha
    · exact hroot List.mem_cons_self hp
    · exact h.fit_of_seated ha
  case annotationReplaced place new old =>
    intro n _ _ a ha x
    rcases List.mem_or_eq_of_mem_set ha with ha | rfl
    · exact h.fit_of_seated ha
    · exact hroot List.mem_cons_self hp
  case annotationMoved shift moved =>
    have hsource := Model.at?_of_locateAnnotation hc.2.1
    have hmoved := List.mem_of_getElem? hsource
    intro n _ _ a ha x
    rcases List.eq_or_mem_of_mem_insertIdx ha with rfl | ha
    · exact h.fit_of_seated hmoved
    · exact h.removed.fit_of_seated ha
  case annotationMovedAndReplaced shift moved old =>
    have hsource := Model.at?_of_locateAnnotation hc.2.1
    have hmoved := List.mem_of_getElem? hsource
    intro n _ _ a ha x
    rcases List.mem_or_eq_of_mem_set ha with ha | rfl
    · exact h.fit_of_seated ha
    · exact h.fit_of_seated hmoved
  case childAdded | childReplaced | childMoved | childMovedAndReplaced =>
    rintro n - ⟨⟩
  all_goals trivial

/-- What is at the top after a change has been so before, or has been checked. -/
theorem entitles_of_tops (hc : c.Fits m) (hp : c.Permitted m)
    (htree : ∀ tree ∈ c.incoming, tree.IsTree) (h : m.nodes.Entitled m.types role)
    (hr : c.reshaping? = some r) {k : NodeId} (htop : r.Tops m.nodes k) {x : Handle}
    (hknows : c.Knows m.nodes k x) (hrole : role = .partition) : m.types.Entitles x role := by
  have hv := vacant_of_fits hc
  subst hrole
  have hold (htop : m.nodes.IsTop k) : m.types.Entitles x .partition := by
    obtain ⟨n, hn⟩ := mem_iff_exists.1 htop.1
    exact classifier_of_knows hv hn hknows ▸ h k htop n hn
  rcases c <;> rcases hr
  case partitionAdded tree =>
    -- A top that was not there before is the root of the new partition.
    rcases htop with rfl | htop
    · have htree := htree tree List.mem_cons_self
      exact root_of_knows hv List.mem_cons_self htree hknows ▸ hp
    · exact hold htop
  case partitionDeleted => exact hold htop.2
  all_goals exact hold htop

/-- A change that reshapes a forest leaves roles to those that are entitled to them. -/
theorem entitled_of_reshaping (ht : m.nodes.Treelike) (hc : c.Fits m) (hp : c.Permitted m)
    (htree : ∀ tree ∈ c.incoming, tree.IsTree) (h : m.nodes.Entitled m.types role)
    (hr : c.reshaping? = some r) : (c.outcome m.nodes).Entitled m.types role := by
  have hobeys := obeys_of_entitled ht hc h
  have hafter := obeys_of_reshaping ht hc hr hobeys (suits_entitling hc hp htree hobeys hr) htree
    (allows_incoming hc htree)
  have hfits := fits_of_reshaping ht hc hr
  have htree' := incoming_of_reshaping hr ▸ htree
  rw [outcome_of_reshaping hr] at hafter ⊢
  refine hafter.entitled_of_tops (Reshaping.treelike_outcome ht hfits htree').keyed
    fun k htop x => ?_
  exact entitles_of_tops hc hp htree h hr ((Reshaping.isTop_outcome ht hfits htree').1 htop)

end Change

namespace Forest

variable {f : Forest} {c : Change} {role : Role}

/-- A change that leaves all nodes where they are leaves roles to those that are entitled to them
    exactly if it deposes nobody. -/
theorem entitled_outcome_iff_of_content (hf : f.WellFormed) (hc : c.Fits f.model)
    (h : f.nodes.Entitled f.types role) (hr : c.reshaping? = none) :
    (c.outcome f.nodes).Entitled f.types role ↔ ¬c.Deposes f role := by
  by_cases hcategory : c.category = .classifier
  · rcases c <;> rcases hcategory
    case classifierChanged id new old =>
    obtain ⟨-, n, hn, -⟩ := hc
    refine (NodeTable.entitled_reclassified_iff (mem_of_lookup hn) h).trans ?_
    exact (imp_congr_left hf.serves_iff.symm).trans not_and_not_right.symm
  · refine iff_of_true (fun k hin n' hn' => ?_) fun hdeposes =>
      hcategory (Change.category_of_deposes hdeposes)
    -- Classifiers are as before, and so are roles.
    have hview := Change.view_of_content (t := f.nodes) Node.classifier_prune (fun _ _ _ => rfl)
      hr hcategory k
    rw [hn'] at hview
    obtain ⟨n, hn, hsame⟩ := Option.map_eq_some_iff.1 hview.symm
    exact hsame ▸ h k ((Change.retouched_outcome hr).serves_iff.1 hin) n hn

/-- An accepted change leaves a role to those that are entitled to it exactly if it deposes
    nobody. -/
theorem entitled_outcome_iff (hf : f.WellFormed) (hreplan : f.model.replan c = .ok c)
    (htree : ∀ tree ∈ c.incoming, tree.IsTree) (h : f.nodes.Entitled f.types role) :
    (c.outcome f.nodes).Entitled f.types role ↔ ¬c.Deposes f role := by
  have hc := Model.fits_of_replan hreplan
  rcases hr : c.reshaping? with _ | r
  · exact entitled_outcome_iff_of_content hf hc h hr
  · refine iff_of_true (Change.entitled_of_reshaping hf.treelike hc
      (Model.permitted_of_replan hreplan) htree h hr) fun hdeposes => ?_
    rw [Change.reshaping?_of_category (Change.category_of_deposes hdeposes)] at hr
    cases hr

/-- Who is deposed had a classifier that entitles. -/
theorem demotes_of_deposes (hf : f.WellFormed) (hc : c.Fits f.model)
    (h : f.nodes.Entitled f.types role) (hdeposes : c.Deposes f role) :
    c.Demotes f.types role := by
  rcases c
  case classifierChanged id new old =>
    obtain ⟨-, n, hn, rfl⟩ := hc
    exact ⟨h id (hf.serves_iff.1 hdeposes.1) n hn, hdeposes.2⟩
  all_goals exact hdeposes.elim

end Forest

/-! ## Whatever comes about -/

namespace Site.Reachable

variable {types : TypeRegistry} {site : Site} {past : List Checkpoint} {made : List Change}
  (h : Site.Reachable types site past made) {role : Role}

include h

/-- As long as no classifier that entitles to a role is given up, all that are in it are entitled
    to it. -/
theorem entitled_of_made (hmade : ∀ c ∈ made, ¬c.Demotes types role) :
    site.forest.Entitled role := by
  have hsound := h.sound
  refine hsound.wellFormed.entitled_iff.2 ?_
  rw [hsound.types]
  refine (h.invariant (P := NodeTable.Entitled types role) (NodeTable.entitled_empty types role)
    (fun f c htypes hf hentitled hc hreplan htree => ?_) hmade).1
  subst htypes
  refine (Forest.entitled_outcome_iff hf hreplan htree hentitled).2 fun hdeposes => hc ?_
  exact Forest.demotes_of_deposes hf (Model.fits_of_replan hreplan) hentitled hdeposes

/-- Where a change is made, a role is left to those that are entitled to it exactly if nobody is
    deposed. -/
theorem entitled_apply_iff {c : Change} {f' : Forest} (hin : ∀ tree ∈ c.incoming, tree.Obtainable)
    (hentitled : site.forest.Entitled role)
    (happly : Forest.Action.apply c site.forest = .ok () f') :
    f'.Entitled role ↔ ¬c.Deposes site.forest role := by
  have hwell := h.sound.wellFormed
  have htree := fun tree ht => (hin tree ht).isTree
  obtain ⟨hreplan, rfl⟩ := (Forest.Action.apply_eq_ok hwell.treelike htree).1 happly
  rw [(hwell.changed (Model.fits_of_replan hreplan) htree).entitled_iff]
  exact Forest.entitled_outcome_iff hwell hreplan htree (hwell.entitled_iff.1 hentitled)

/-- Partitions are of classifiers of partitions, and annotations of classifiers of annotations, as
    long as no change gives up a classifier that entitles to the role. If a change that does so for
    a node in the role is accepted, the role is not left to those that are entitled to it any more.
    No other change has this effect. -/
theorem entitled : ∀ role, ((∀ c ∈ made, ¬c.Demotes types role) → site.forest.Entitled role) ∧
    ∀ c f', (∀ tree ∈ c.incoming, tree.Obtainable) → site.forest.Entitled role →
      Forest.Action.apply c site.forest = .ok () f' →
        (f'.Entitled role ↔ ¬c.Deposes site.forest role) :=
  fun _ => ⟨h.entitled_of_made, fun _ _ => h.entitled_apply_iff⟩

end Site.Reachable

/-! ## A library and a remark that become books -/

namespace Examples

/-- A site with a library and a remark on it. -/
def remarked : Site := Call.after opened (.commit remarking)

/-- Who is in a role is made a book. -/
def demotion : Role → Change
  | .partition => .classifierChanged ⟨"city"⟩ ⟨5⟩ ⟨0⟩
  | Role.annotation => .classifierChanged ⟨"remark"⟩ ⟨5⟩ ⟨17⟩

theorem reachable_remarked : Site.Reachable libraryTypes remarked [] [opening, remarking] :=
  .call (.commit remarking) reachable_opened
    (List.forall_mem_singleton.2 (obtainable_of_leaf rfl))

theorem steady_remarked (role : Role) :
    ∀ c ∈ [opening, remarking], ¬c.Demotes libraryTypes role := by
  intro c hc
  rcases List.mem_pair.1 hc with rfl | rfl <;> exact not_false

/-- Books are neither partitions nor annotations. -/
theorem not_entitles_book (role : Role) : ¬libraryTypes.Entitles ⟨5⟩ role := by
  rcases role
  · rintro ⟨info, hinfo, hpartition⟩
    cases hinfo
    cases hpartition
  · rintro ⟨info, hinfo, hkind⟩
    cases hinfo
    cases hkind

theorem deposes_demotion (role : Role) : (demotion role).Deposes remarked.forest role := by
  rcases role
  · have hpartition : ⟨"city"⟩ ∈ remarked.forest.partitions := by decide +kernel
    exact ⟨hpartition, not_entitles_book _⟩
  · exact ⟨⟨⟨"city"⟩, _, rfl, by decide +kernel⟩, not_entitles_book _⟩

theorem obtainable_demotion (role : Role) : ∀ tree ∈ (demotion role).incoming, tree.Obtainable := by
  rcases role <;> exact List.forall_mem_nil _

theorem apply_demotion (role : Role) : Forest.Action.apply (demotion role) remarked.forest =
    .ok () (remarked.forest.changed (demotion role)) := by
  have hreplan : remarked.forest.model.replan (demotion role) = .ok (demotion role) := by
    rcases role <;> decide +kernel
  have htree := fun tree ht => (obtainable_demotion role tree ht).isTree
  exact (Forest.Action.apply_eq_ok reachable_remarked.sound.wellFormed.treelike htree).2
    ⟨hreplan, rfl⟩

/-- All roles are served by whom they entitle, and a demotion spoils each of them. -/
theorem entitled_remarked : Site.Reachable libraryTypes remarked [] [opening, remarking] ∧
    ∀ role, remarked.forest.Entitled role ∧
      ¬(remarked.forest.changed (demotion role)).Entitled role := by
  refine ⟨reachable_remarked, fun role => ?_⟩
  obtain ⟨hsteady, hexact⟩ := Site.Reachable.entitled reachable_remarked role
  have hentitled := hsteady (steady_remarked role)
  refine ⟨hentitled, fun hafter => ?_⟩
  exact (hexact (demotion role) _ (obtainable_demotion role) hentitled (apply_demotion role)).1
    hafter (deposes_demotion role)

/-- The site after somebody in a role has been made a book. -/
def deposed (role : Role) : Site := Call.after remarked (.apply (demotion role))

theorem reachable_deposed (role : Role) :
    Site.Reachable libraryTypes (deposed role) []
      ([opening, remarking] ++ Call.made remarked (.apply (demotion role))) :=
  .call (.apply _) reachable_remarked (obtainable_demotion role)

/-- The one that has been deposed still has the role. -/
theorem not_entitled_deposed (role : Role) : ¬(deposed role).forest.Entitled role := by
  have hforest : (deposed role).forest = remarked.forest.changed (demotion role) := by
    rw [deposed, Call.after, Site.Action.onForest_of_ok (apply_demotion role)]
    rfl
  rw [hforest, reachable_remarked.entitled_apply_iff (obtainable_demotion role)
    (reachable_remarked.entitled_of_made (steady_remarked role)) (apply_demotion role), not_not]
  exact deposes_demotion role

/-- A site that has come about and in which a partition is not of a classifier of partitions, and
    one in which an annotation is not of a classifier of annotations. -/
theorem exists_deposed :
    (∃ types site past made, Site.Reachable types site past made ∧
      ¬site.forest.Entitled .partition) ∧
    ∃ types site past made, Site.Reachable types site past made ∧
      ¬site.forest.Entitled Role.annotation :=
  ⟨⟨_, _, _, _, reachable_deposed _, not_entitled_deposed _⟩,
    ⟨_, _, _, _, reachable_deposed _, not_entitled_deposed _⟩⟩

end Examples

end DeltaForest
