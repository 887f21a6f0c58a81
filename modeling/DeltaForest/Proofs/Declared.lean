import DeltaForest.Proofs.Registered
import Mathlib.Data.List.Count

/-!
# Who declares a feature

A language brings its classifiers one after the other, and behind each of them the features that it
declares: in a table the elements of a classifier stand together (`TypeRegistry.Shows`). Every
element of a registry belongs to the stand of one classifier of one of its languages
(`TypeRegistry.Built`, by induction on the languages). From there on handles can be counted: the
features of a classifier are the elements behind it, so that a feature has exactly one classifier
that declares it, and that is its owner (`Built.declares_iff`).
-/

namespace DeltaForest

namespace TypeRegistry

variable {l : Language} {next : Nat} {c : Classifier}

/-! ## The elements of a classifier -/

/-- A classifier as it is registered, if the next handle is `next`. -/
def classifierInfo (l : Language) (next : Nat) (c : Classifier) : ClassifierInfo where
  handle := ⟨next⟩
  pointer := l.pointer c.key
  name := c.name
  kind := c.kind
  isPartition := c.isPartition
  features := (List.range c.features.length).map fun i => ⟨next + 1 + i⟩

/-- A feature as it is registered under a handle, for its owner. -/
def featureInfo (l : Language) (owner handle : Handle) (f : Feature) : FeatureInfo where
  handle := handle
  pointer := l.pointer f.key
  name := f.name
  owner := owner
  kind := f.kind

theorem elementsOf_zero :
    (elementsOf l next c)[0]? = some (.classifier (classifierInfo l next c)) :=
  rfl

theorem elementsOf_succ (i : Nat) : (elementsOf l next c)[i + 1]? =
    c.features[i]?.map fun f => .feature (featureInfo l ⟨next⟩ ⟨next + 1 + i⟩ f) := by
  rw [elementsOf, List.getElem?_cons_succ, List.getElem?_mapIdx]
  rfl

/-- Every element of a language is one of a classifier, with which the others of that classifier
    stand together. -/
theorem exists_stand {cs : List Classifier} {i : Nat} {el : Element}
    (h : (elementsFrom l next cs)[i]? = some el) :
    ∃ c ∈ cs, ∃ start j, start + j = i ∧ (elementsOf l (next + start) c)[j]? = some el ∧
      ∀ k other, (elementsOf l (next + start) c)[k]? = some other →
        (elementsFrom l next cs)[start + k]? = some other := by
  -- A classifier stands in front of its features, and the next one behind them.
  induction cs generalizing next i with
  | nil => simp [elementsFrom] at h
  | cons c cs ih =>
    rw [elementsFrom] at h ⊢
    by_cases hi : i < (elementsOf l next c).length
    · rw [List.getElem?_append_left hi] at h
      refine ⟨c, List.mem_cons_self, 0, i, Nat.zero_add i, h, fun k other hk => ?_⟩
      rw [Nat.add_zero] at hk
      rw [Nat.zero_add, List.getElem?_append_left (List.getElem?_eq_some_iff.1 hk).1]
      exact hk
    · -- What is behind the first classifier is counted from there.
      rw [List.getElem?_append_right (Nat.le_of_not_lt hi)] at h
      obtain ⟨c', hc', start, j, hj, hel, hstand⟩ := ih h
      have hlength : (elementsOf l next c).length = 1 + c.features.length := length_elementsOf c
      have hnext : next + 1 + c.features.length + start =
          next + (1 + c.features.length + start) := by omega
      rw [hnext] at hel hstand
      refine ⟨c', List.mem_cons_of_mem _ hc', 1 + c.features.length + start, j, by omega, hel,
        fun k other hk => ?_⟩
      rw [List.getElem?_append_right (by omega),
        show 1 + c.features.length + start + k - (elementsOf l next c).length = start + k by omega]
      exact hstand k other hk

/-! ## Registries -/

variable {r r' : TypeRegistry} {languages : List Language}

/-- The elements of a classifier stand in a registry from a handle on. -/
def Shows (r : TypeRegistry) (l : Language) (start : Nat) (c : Classifier) : Prop :=
  ∀ i el, (elementsOf l start c)[i]? = some el → r.elements[start + i]? = some el

/-- A registry of languages: their elements are there in their order, each with those of the same
    classifier around it. -/
structure Built (languages : List Language) (r : TypeRegistry) : Prop where
  pointers : r.elements.map Element.pointer =
    languages.flatMap fun l => (keys l).map l.pointer
  stands : ∀ (i : Nat) (el : Element), r.elements[i]? = some el →
    ∃ l ∈ languages, ∃ c ∈ l.classifiers, ∃ start j, start + j = i ∧
      (elementsOf l start c)[j]? = some el ∧ r.Shows l start c

theorem built_empty : Built [] empty where
  pointers := rfl
  stands i el h := by simp [empty] at h

/-- What a language that is registered brings. -/
theorem register_eq_ok : r.register l = .ok r' ↔
    firstTaken (r.elements.map Element.pointer) ((keys l).map l.pointer) = none ∧
      r' = { elements := r.elements ++ elementsFrom l r.elements.length l.classifiers
             languages := r.languages ++ [(l.key, l.version)] } := by
  rw [register]
  cases firstTaken (r.elements.map Element.pointer) ((keys l).map l.pointer) with
  | none => simp [eq_comm]
  | some p => simp

theorem Built.register (hb : Built languages r) (h : r.register l = .ok r') :
    Built (languages ++ [l]) r' := by
  obtain ⟨-, rfl⟩ := register_eq_ok.1 h
  refine ⟨?_, fun i el hel => ?_⟩
  · rw [List.map_append, hb.pointers, pointers_elementsFrom, List.flatMap_append,
      List.flatMap_singleton]
    rfl
  · by_cases hi : i < r.elements.length
    · -- What was there stands where it stood.
      rw [List.getElem?_append_left hi] at hel
      obtain ⟨l', hl', c, hc, start, j, hj, hstart, hshows⟩ := hb.stands i el hel
      refine ⟨l', List.mem_append_left _ hl', c, hc, start, j, hj, hstart, fun k other hk => ?_⟩
      have hold := hshows k other hk
      rw [List.getElem?_append_left (List.getElem?_eq_some_iff.1 hold).1]
      exact hold
    · rw [List.getElem?_append_right (Nat.le_of_not_lt hi)] at hel
      obtain ⟨c, hc, start, j, hj, hstart, hstand⟩ := exists_stand hel
      refine ⟨l, List.mem_append_right _ (List.mem_singleton.2 rfl), c, hc,
        r.elements.length + start, j, by omega, hstart, fun k other hk => ?_⟩
      rw [List.getElem?_append_right (by omega),
        show r.elements.length + start + k - r.elements.length = start + k by omega]
      exact hstand k other hk

theorem Built.registerAll {more : List Language} (hb : Built languages r)
    (h : r.registerAll more = .ok r') : Built (languages ++ more) r' := by
  induction more generalizing languages r with
  | nil =>
    cases h
    rwa [List.append_nil]
  | cons l more ih =>
    rw [TypeRegistry.registerAll, List.foldlM_cons] at h
    obtain ⟨r₁, hfirst, hrest⟩ := bind_eq_ok.1 h
    have hbuilt := ih (hb.register hfirst) hrest
    rwa [List.append_assoc, List.singleton_append] at hbuilt

theorem built_of_registerAll (h : TypeRegistry.registerAll .empty languages = .ok r) :
    Built languages r :=
  built_empty.registerAll h

/-! ## Classifiers and their features -/

namespace Built

variable (hb : Built languages r) {h feature : Handle}

include hb

/-- A classifier is registered as it is declared, with its features behind it. -/
theorem exists_classifier {info : ClassifierInfo} (hinfo : r.classifier? h = some info) :
    ∃ l ∈ languages, ∃ c ∈ l.classifiers, info = classifierInfo l h.index c ∧
      ∀ i f, c.features[i]? = some f →
        r.feature? ⟨h.index + 1 + i⟩ = some (featureInfo l h ⟨h.index + 1 + i⟩ f) := by
  obtain ⟨l, hl, c, hc, start, j, hj, hel, hshows⟩ :=
    hb.stands h.index _ (classifier?_eq_some.1 hinfo)
  cases j with
  | zero =>
    obtain rfl : start = h.index := hj
    rw [elementsOf_zero] at hel
    cases hel
    refine ⟨l, hl, c, hc, rfl, fun i f hf => feature?_eq_some.2 ?_⟩
    have hfeature := hshows (i + 1) _ (by rw [elementsOf_succ, hf, Option.map_some])
    rwa [show h.index + (i + 1) = h.index + 1 + i by omega] at hfeature
  | succ j =>
    -- Behind the classifier there are features only.
    rw [elementsOf_succ] at hel
    obtain ⟨f, -, hf⟩ := Option.map_eq_some_iff.1 hel
    cases hf

/-- A feature is listed by its owner, once. -/
theorem exists_owner {info : FeatureInfo} (hinfo : r.feature? feature = some info) :
    ∃ owner, r.classifier? info.owner = some owner ∧ owner.features.count feature = 1 := by
  obtain ⟨l, hl, c, hc, start, j, hj, hel, hshows⟩ :=
    hb.stands feature.index _ (feature?_eq_some.1 hinfo)
  -- The classifier stands first, and a feature as far behind it as its place in the list.
  cases j with
  | zero =>
    rw [elementsOf_zero] at hel
    cases hel
  | succ j =>
    rw [elementsOf_succ] at hel
    obtain ⟨f, hf, hinfo⟩ := Option.map_eq_some_iff.1 hel
    cases hinfo
    refine ⟨_, classifier?_eq_some.2 (hshows 0 _ elementsOf_zero), ?_⟩
    have hinjective : Function.Injective fun i : Nat => (⟨start + 1 + i⟩ : Handle) := fun i k hik =>
      Nat.add_left_cancel (Handle.mk.inj hik)
    have hfeature : feature = ⟨start + 1 + j⟩ := congrArg Handle.mk (by omega)
    have hlt := (List.getElem?_eq_some_iff.1 hf).1
    rw [classifierInfo, hfeature, List.count_map_of_injective _ _ hinjective j]
    exact List.count_eq_one_of_mem List.nodup_range (List.mem_range.2 hlt)

/-- What a classifier lists are its own features. -/
theorem exists_feature {info : ClassifierInfo} (hinfo : r.classifier? h = some info)
    (hfeature : feature ∈ info.features) :
    ∃ f, r.feature? feature = some f ∧ f.owner = h := by
  obtain ⟨l, -, c, -, rfl, hfeatures⟩ := hb.exists_classifier hinfo
  obtain ⟨i, hi, rfl⟩ := List.mem_map.1 hfeature
  have hlt := List.mem_range.1 hi
  exact ⟨_, hfeatures i _ (List.getElem?_eq_getElem hlt), rfl⟩

/-- The owner of a feature declares it, and nobody else. -/
theorem declares_iff : r.declares h feature = true ↔
    ∃ info, r.feature? feature = some info ∧ info.owner = h := by
  rw [declares]
  constructor
  · intro hdeclares
    split at hdeclares
    · next info hinfo => exact hb.exists_feature hinfo (of_decide_eq_true hdeclares)
    · cases hdeclares
  · rintro ⟨info, hinfo, rfl⟩
    obtain ⟨owner, howner, hcount⟩ := hb.exists_owner hinfo
    rw [howner]
    exact decide_eq_true (List.count_pos_iff.1 (Nat.lt_of_lt_of_eq Nat.one_pos hcount.symm))

end Built

end TypeRegistry

end DeltaForest
