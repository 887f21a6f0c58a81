import DeltaForest.Proofs.Declared
import DeltaForest.Proofs.Exported

/-!
# Nodes that get another classifier

Another classifier for a node has to declare every feature that the node has something for. That
sounds as if classifiers could have features in common, but a feature has one classifier that
declares it (`TypeRegistry.Built.declares_unique`). What a node has something for is declared by the
classifier that it has, whatever has happened to the node before, and so no other one declares any
of it. A node can get another classifier exactly if it is blank, and for any other node the failure
names a feature that stands in the way (`Site.Reachable.reclassifies`). Annotations never do.
-/

namespace DeltaForest

/-! ## What a node has something for -/

namespace Node

variable {types : TypeRegistry} {n : Node} {feature : Handle}

/-- A node has a value, a child or an entry for a feature. -/
def Has (n : Node) (feature : Handle) : Prop :=
  (n.property? feature).isSome ∨ n.children feature ≠ [] ∨ n.entries feature ≠ []

/-- A node without values, and with nothing in its containments and references. -/
structure Blank (n : Node) : Prop where
  properties : ∀ p : Handle, n.properties[p]? = none
  containments : ∀ (c : Handle) (ids : List NodeId), n.containments[c]? = some ids → ids = []
  references : ∀ (r : Handle) (es : List Entry), n.references[r]? = some es → es = []

instance : Decidable (n.Has feature) :=
  inferInstanceAs (Decidable (_ ∨ _ ∨ _))

/-- Nothing is found in a list that is not there, or that holds nothing. -/
theorem getD_eq_nil_iff {α : Type} {list : Option (List α)} :
    list.getD [] = [] ↔ ∀ xs, list = some xs → xs = [] := by
  cases list <;> simp

/-- A blank node has nothing for any feature. -/
theorem blank_iff : n.Blank ↔ ∀ feature, ¬n.Has feature := by
  constructor
  · rintro ⟨hproperties, hcontainments, hreferences⟩ feature (hvalue | hchildren | hentries)
    · rw [property?, hproperties feature] at hvalue
      cases hvalue
    · exact hchildren (getD_eq_nil_iff.2 (hcontainments feature))
    · exact hentries (getD_eq_nil_iff.2 (hreferences feature))
  · intro h
    refine ⟨fun p => ?_, fun c => getD_eq_nil_iff.1 ?_, fun r => getD_eq_nil_iff.1 ?_⟩
    · exact Option.not_isSome_iff_eq_none.1 fun hvalue => h p (.inl hvalue)
    · exact not_not.1 fun hne => h c (.inr (.inl hne))
    · exact not_not.1 fun hne => h r (.inr (.inr hne))

theorem blank_iff_setFeatures : n.Blank ↔ Model.setFeatures n = [] := by
  rw [blank_iff, List.eq_nil_iff_forall_not_mem]
  exact forall_congr' fun feature => not_congr Model.mem_setFeatures.symm

instance : Decidable n.Blank :=
  decidable_of_iff _ blank_iff_setFeatures.symm

/-- What a node has something for is declared by its classifier. -/
theorem Conforms.declares (h : n.Conforms types) (hset : n.Has feature) :
    types.declares n.classifier feature = true := by
  rcases hset with hvalue | hchildren | hentries
  · obtain ⟨v, hv⟩ := Option.isSome_iff_exists.1 hvalue
    obtain ⟨-, -, -, hdeclares, -⟩ := h.properties feature v hv
    exact hdeclares
  · obtain ⟨-, -, hdeclares, -⟩ := h.children feature hchildren
    exact hdeclares
  · obtain ⟨⟨-, -, hdeclares, -⟩, -⟩ := h.entries feature hentries
    exact hdeclares

end Node

/-! ## Who declares it -/

namespace TypeRegistry.Built

variable {languages : List Language} {r : TypeRegistry} {c c' feature : Handle}

/-- A feature is declared by one classifier only. -/
theorem declares_unique (hb : Built languages r) (h : r.declares c feature = true)
    (h' : r.declares c' feature = true) : c = c' := by
  obtain ⟨info, hinfo, rfl⟩ := hb.declares_iff.1 h
  obtain ⟨info', hinfo', rfl⟩ := hb.declares_iff.1 h'
  rw [Option.some.inj (hinfo.symm.trans hinfo')]

/-- A feature that is declared can be named. -/
theorem exists_pointer (hb : Built languages r) (h : r.declares c feature = true) :
    ∃ p, r.pointer feature = .ok p := by
  obtain ⟨info, hinfo, -⟩ := hb.declares_iff.1 h
  exact ⟨_, pointer_of_element? (feature?_eq_some.1 hinfo)⟩

end TypeRegistry.Built

/-! ## Planning another classifier -/

namespace Model

variable {m : Model} {id : NodeId} {n : Node} {new : Handle} {info : ClassifierInfo}
variable {languages : List Language}

/-- What it takes for a node to get another classifier. -/
structure Reclassifies (m : Model) (id : NodeId) (n : Node) (new : Handle) : Prop where
  /-- The change can be planned for a blank node, -/
  planned_iff : ∀ c, m.planChangeClassifier id new = .ok c ↔
    n.Blank ∧ c = .classifierChanged id new n.classifier
  /-- and for any other node there is a feature that it has something for and that is not one of the
      new classifier. -/
  refused : ¬n.Blank → ∃ feature p, n.Has feature ∧ m.types.pointer feature = .ok p ∧
    m.planChangeClassifier id new = .error (.notApplicable id p)

/-- The plan for a classifier and a node that are there. -/
theorem planChangeClassifier_eq (hnew : m.types.classifierAt new = .ok info)
    (hn : m.nodes[id]? = some n) : m.planChangeClassifier id new =
      match (setFeatures n).find? (!m.types.declares new ·) with
      | some feature => m.types.pointer feature >>= fun p => .error (.notApplicable id p)
      | none => .ok (.classifierChanged id new n.classifier) := by
  rw [planChangeClassifier, hnew, ok_bind, node_eq_ok.2 hn, ok_bind]
  rfl

/-- What a conforming node has something for stands in the way of every other classifier. -/
theorem reclassifies_of_conforms (hb : m.types.Built languages) (hn : m.nodes[id]? = some n)
    (hconforms : n.Conforms m.types) (hnew : m.types.classifierAt new = .ok info)
    (hother : new ≠ n.classifier) : m.Reclassifies id n new := by
  have hundeclared (feature : Handle) (hset : n.Has feature) :
      m.types.declares new feature = false :=
    Bool.eq_false_iff.2 fun h => hother (hb.declares_unique h (hconforms.declares hset))
  have hplan := planChangeClassifier_eq hnew hn
  cases hfind : (setFeatures n).find? (!m.types.declares new ·) with
  | none =>
    rw [hfind] at hplan
    have hblank : n.Blank := Node.blank_iff.2 fun feature hset => by
      refine List.find?_eq_none.1 hfind feature (mem_setFeatures.2 hset) ?_
      rw [hundeclared feature hset, Bool.not_false]
    refine ⟨fun c => ?_, fun hfilled => absurd hblank hfilled⟩
    rw [hplan, Except.ok.injEq, and_iff_right hblank, eq_comm]
  | some feature =>
    have hset : n.Has feature := mem_setFeatures.1 (List.mem_of_find?_eq_some hfind)
    obtain ⟨p, hp⟩ := hb.exists_pointer (hconforms.declares hset)
    rw [hfind] at hplan
    simp only [hp, ok_bind] at hplan
    refine ⟨fun c => ?_, fun _ => ⟨feature, p, hset, hp, hplan⟩⟩
    have hnot : ¬n.Blank := fun hblank => Node.blank_iff.1 hblank feature hset
    rw [hplan, iff_false_right fun h => hnot h.1]
    nofun

end Model

/-- In whatever comes about a node gets another classifier exactly if it is blank. -/
theorem Site.Reachable.reclassifies {types : TypeRegistry} {languages : List Language}
    (htypes : TypeRegistry.registerAll .empty languages = .ok types) {site : Site}
    {past : List Checkpoint} {made : List Change} (h : Site.Reachable types site past made)
    {id : NodeId} {n : Node} (hn : site.forest.nodes[id]? = some n) {new : Handle}
    {info : ClassifierInfo} (hnew : types.classifierAt new = .ok info)
    (hother : new ≠ n.classifier) : site.forest.model.Reclassifies id n new := by
  have htyped := h.sound.types
  have hconforms := h.obeys_conforming htypes id n hn
  subst htyped
  exact Model.reclassifies_of_conforms (TypeRegistry.built_of_registerAll htypes) hn hconforms hnew
    hother

/-! ## A library with a book -/

namespace Examples

/-- The library has a book and stays a library; the book has nothing and can become a chapter. -/
theorem reclassifies_stocked : Site.Reachable libraryTypes stocked [] [opening, shelving] ∧
    (∃ n, stocked.forest.nodes[(⟨"city"⟩ : NodeId)]? = some n ∧ n.Has ⟨2⟩ ∧
      stocked.forest.model.Reclassifies ⟨"city"⟩ n ⟨5⟩) ∧
    ∃ n, stocked.forest.nodes[(⟨"novel"⟩ : NodeId)]? = some n ∧ n.Blank ∧
      stocked.forest.model.Reclassifies ⟨"novel"⟩ n ⟨13⟩ := by
  refine ⟨reachable_stocked, ⟨_, rfl, by decide +kernel, ?_⟩, _, rfl, by decide +kernel, ?_⟩
  · exact Site.Reachable.reclassifies registerAll_library reachable_stocked rfl rfl (by decide)
  · exact Site.Reachable.reclassifies registerAll_library reachable_stocked rfl rfl (by decide)

end Examples

end DeltaForest
