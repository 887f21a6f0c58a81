import DeltaForest.Proofs.Lookup
import DeltaForest.TypeRegistry
import Mathlib.Data.List.Nodup

/-!
# Registered types

Registering languages one after the other gives a table in which the handle of an element is its
position and no pointer stands twice (`TypeRegistry.Lawful`). Going from a handle to the pointer and
back therefore leads to the same element: what is known here by a handle is known elsewhere, where
the same languages are registered, by its pointer.
-/

namespace DeltaForest

namespace TypeRegistry

/-- Handles are positions, and pointers stand once. -/
structure Lawful (r : TypeRegistry) : Prop where
  handles : ∀ (i : Nat) (el : Element), r.elements[i]? = some el → el.handle = ⟨i⟩
  distinct : (r.elements.map Element.pointer).Nodup

/-! ## Registration -/

/-- No pointer is taken if there are no two alike and none is among those taken before. -/
theorem firstTaken_eq_none {taken ps : List Pointer} :
    firstTaken taken ps = none ↔ ps.Nodup ∧ ∀ p ∈ ps, p ∉ taken := by
  induction ps generalizing taken with
  | nil => simp [firstTaken]
  | cons p ps ih =>
    rw [firstTaken]
    split
    · next hp => simp [hp]
    · next hp =>
      rw [ih, List.nodup_cons, List.forall_mem_cons]
      constructor
      · rintro ⟨hnodup, hfree⟩
        refine ⟨⟨fun hmem => hfree p hmem List.mem_cons_self, hnodup⟩, hp, fun q hq hq' => ?_⟩
        exact hfree q hq (List.mem_cons_of_mem _ hq')
      · -- Taken is now this pointer or was taken before.
        rintro ⟨⟨hnew, hnodup⟩, -, hfree⟩
        refine ⟨hnodup, fun q hq hq' => ?_⟩
        rcases List.mem_cons.1 hq' with rfl | hq'
        · exact hnew hq
        · exact hfree q hq hq'

variable {l : Language} {next : Nat}

/-- A classifier is registered in front of its features. -/
theorem pointers_elementsOf (c : Classifier) :
    (elementsOf l next c).map Element.pointer =
      (c.key :: c.features.map (·.key)).map l.pointer := by
  rw [elementsOf, List.map_cons, List.map_cons, List.map_map]
  refine congrArg _ (List.ext_getElem? fun i => ?_)
  rw [List.getElem?_map, List.getElem?_mapIdx, List.getElem?_map, Option.map_map]
  rfl

theorem pointers_elementsFrom (cs : List Classifier) :
    (elementsFrom l next cs).map Element.pointer =
      (cs.flatMap fun c => c.key :: c.features.map (·.key)).map l.pointer := by
  induction cs generalizing next with
  | nil => rfl
  | cons c cs ih =>
    rw [elementsFrom, List.map_append, pointers_elementsOf, ih, List.flatMap_cons, List.map_append]

/-- A classifier takes one handle, and so does each of its features. -/
theorem length_elementsOf (c : Classifier) :
    (elementsOf l next c).length = 1 + c.features.length := by
  rw [elementsOf, List.length_cons, List.length_mapIdx, Nat.add_comm]

/-- Handles are given out in order. -/
theorem handle_elementsOf {c : Classifier} {i : Nat} {el : Element}
    (h : (elementsOf l next c)[i]? = some el) : el.handle = ⟨next + i⟩ := by
  rw [elementsOf] at h
  cases i with
  | zero =>
    obtain rfl := Option.some.inj h
    rfl
  | succ i =>
    rw [List.getElem?_cons_succ, List.getElem?_mapIdx] at h
    obtain ⟨f, -, rfl⟩ := Option.map_eq_some_iff.1 h
    exact congrArg Handle.mk (by omega)

/-- Handles are given out in order over classifiers as well. -/
theorem handle_elementsFrom {cs : List Classifier} {i : Nat} {el : Element}
    (h : (elementsFrom l next cs)[i]? = some el) : el.handle = ⟨next + i⟩ := by
  induction cs generalizing next i with
  | nil => simp [elementsFrom] at h
  | cons c cs ih =>
    rw [elementsFrom] at h
    by_cases hi : i < (elementsOf l next c).length
    · rw [List.getElem?_append_left hi] at h
      exact handle_elementsOf h
    · rw [List.getElem?_append_right (Nat.le_of_not_lt hi)] at h
      rw [ih h]
      rw [length_elementsOf] at hi ⊢
      exact congrArg Handle.mk (by omega)

/-- An empty registry is lawful. -/
theorem lawful_empty : empty.Lawful where
  handles i el h := by simp [empty] at h
  distinct := List.nodup_nil

/-- A language fits into what is registered, or it is not registered. -/
theorem Lawful.register {r r' : TypeRegistry} (hr : r.Lawful) (h : r.register l = .ok r') :
    r'.Lawful := by
  rw [TypeRegistry.register] at h
  split at h
  · cases h
  · next hfree =>
    cases h
    -- The search has found no pointer that was taken.
    obtain ⟨hnodup, hfree⟩ := firstTaken_eq_none.1 hfree
    refine ⟨fun i el hel => ?_, ?_⟩
    · -- Elements that were registered keep their handles; new ones are counted on from there.
      by_cases hi : i < r.elements.length
      · exact hr.handles i el (by rwa [List.getElem?_append_left hi] at hel)
      · rw [List.getElem?_append_right (Nat.le_of_not_lt hi)] at hel
        rw [handle_elementsFrom hel]
        exact congrArg Handle.mk (by omega)
    · rw [List.map_append, pointers_elementsFrom]
      exact List.nodup_append.2 ⟨hr.distinct, hnodup, fun p hp q hq heq => hfree q hq (heq ▸ hp)⟩

/-- Registering languages one after the other. -/
theorem Lawful.registerAll {languages : List Language} {r r' : TypeRegistry} (hr : r.Lawful)
    (h : r.registerAll languages = .ok r') : r'.Lawful := by
  induction languages generalizing r with
  | nil => cases h; exact hr
  | cons l languages ih =>
    rw [TypeRegistry.registerAll, List.foldlM_cons] at h
    obtain ⟨r₁, hr₁, h⟩ := bind_eq_ok.1 h
    exact ih (hr.register hr₁) h

/-- Whatever is registered into an empty registry gives a lawful one. -/
theorem lawful_of_registerAll {languages : List Language} {r : TypeRegistry}
    (h : TypeRegistry.registerAll .empty languages = .ok r) : r.Lawful :=
  lawful_empty.registerAll h

/-! ## From handles to pointers and back -/

variable {r : TypeRegistry} {h : Handle} {el : Element} {kind : ElementKind}

/-- An element is known by its pointer. -/
theorem pointer_of_element? (hel : r.element? h = some el) : r.pointer h = .ok el.pointer := by
  rw [pointer, pointer?, hel]
  rfl

theorem pointer_eq_ok {p : Pointer} : r.pointer h = .ok p ↔ r.pointer? h = some p := by
  rw [pointer]
  cases r.pointer? h <;> simp

theorem classifier?_eq_some {info : ClassifierInfo} :
    r.classifier? h = some info ↔ r.element? h = some (.classifier info) := by
  rw [classifier?]
  cases r.element? h with
  | none => simp
  | some el => cases el <;> simp

theorem feature?_eq_some {info : FeatureInfo} :
    r.feature? h = some info ↔ r.element? h = some (.feature info) := by
  rw [feature?]
  cases r.element? h with
  | none => simp
  | some el => cases el <;> simp

/-- A feature that is found is taken if it is of the kind asked for. -/
theorem filter_feature?_eq_some {info : FeatureInfo} :
    (r.feature? h).filter (·.elementKind = kind) = some info ↔
      r.element? h = some (.feature info) ∧ info.elementKind = kind := by
  rw [Option.filter_eq_some_iff, feature?_eq_some, decide_eq_true_eq]

/-- A classifier is at a handle if the element there is one. -/
theorem classifierAt_eq_ok {info : ClassifierInfo} :
    r.classifierAt h = .ok info ↔ r.element? h = some (.classifier info) := by
  rw [classifierAt, ← classifier?_eq_some]
  cases r.classifier? h <;> simp [mismatch, bind_eq_ok]

/-- A feature of a kind is at a handle if the element there is one. -/
theorem featureAt_eq_ok {info : FeatureInfo} : r.featureAt kind h = .ok info ↔
    r.element? h = some (.feature info) ∧ info.elementKind = kind := by
  rw [featureAt, ← filter_feature?_eq_some]
  cases (r.feature? h).filter (·.elementKind = kind) <;> simp [mismatch, bind_eq_ok]

/-- A classifier is found by the handle that its pointer stands for. -/
theorem classifier_eq_ok {p : Pointer} {info : ClassifierInfo} : r.classifier p = .ok info ↔
    ∃ h, r.handle? p = some h ∧ r.element? h = some (.classifier info) := by
  rw [classifier]
  cases r.handle? p with
  | none => simp
  | some h =>
    simp only [Option.some.injEq, exists_eq_left', ← classifier?_eq_some]
    cases r.classifier? h <;> simp

/-- A feature of a kind is found by the handle that its pointer stands for. -/
theorem feature_eq_ok {p : Pointer} {info : FeatureInfo} : r.feature kind p = .ok info ↔
    ∃ h, r.handle? p = some h ∧ r.element? h = some (.feature info) ∧
      info.elementKind = kind := by
  rw [feature]
  cases r.handle? p with
  | none => simp
  | some h =>
    simp only [Option.some.injEq, exists_eq_left', ← filter_feature?_eq_some]
    cases (r.feature? h).filter (·.elementKind = kind) <;> simp

namespace Lawful

variable (hr : r.Lawful)

include hr

theorem handle_of_element? (hel : r.element? h = some el) : el.handle = h := hr.handles _ _ hel

/-- An element is found by its pointer. -/
theorem handle?_pointer (hel : r.element? h = some el) : r.handle? el.pointer = some h := by
  have hmem : el ∈ r.elements := List.mem_of_getElem? hel
  obtain ⟨found, hfound⟩ : ∃ found, r.elements.find? (·.pointer = el.pointer) = some found :=
    Option.isSome_iff_exists.1 (List.find?_isSome.2 ⟨el, hmem, by simp⟩)
  have hsame : found = el := List.inj_on_of_nodup_map hr.distinct
    (List.mem_of_find?_eq_some hfound) hmem (by simpa using List.find?_some hfound)
  rw [handle?, hfound, hsame, Option.map_some, hr.handle_of_element? hel]

/-- The pointer by which an element has been found is its own. -/
theorem pointer_of_handle? {p : Pointer} (hp : r.handle? p = some h) : r.pointer h = .ok p := by
  obtain ⟨el, hfound, rfl⟩ := Option.map_eq_some_iff.1 hp
  obtain ⟨i, hi⟩ := List.mem_iff_getElem?.1 (List.mem_of_find?_eq_some hfound)
  have hpointer : el.pointer = p := by simpa using List.find?_some hfound
  rw [hr.handles i el hi, ← hpointer]
  exact pointer_of_element? hi

/-- The handle to which a pointer leads back. -/
theorem handle?_of_pointer {p : Pointer} (hp : r.pointer h = .ok p) : r.handle? p = some h := by
  obtain ⟨el, hel, rfl⟩ := Option.map_eq_some_iff.1 (pointer_eq_ok.1 hp)
  exact hr.handle?_pointer hel

/-- Two handles with one pointer are the same. -/
theorem pointer_injective {h' : Handle} {p : Pointer} (hp : r.pointer h = .ok p)
    (hp' : r.pointer h' = .ok p) : h = h' :=
  Option.some.inj ((hr.handle?_of_pointer hp).symm.trans (hr.handle?_of_pointer hp'))

/-- From the handle of a classifier to its pointer and back. -/
theorem classifier_pointer {info : ClassifierInfo} (hinfo : r.classifierAt h = .ok info) :
    r.pointer h = .ok info.pointer ∧ r.classifier info.pointer = .ok info ∧ info.handle = h := by
  have hel := classifierAt_eq_ok.1 hinfo
  refine ⟨pointer_of_element? hel, ?_, hr.handle_of_element? hel⟩
  have hfound := hr.handle?_pointer hel
  rw [classifier, show r.handle? info.pointer = some h from hfound]
  simp [classifier?, hel]

/-- From the handle of a feature to its pointer and back. -/
theorem feature_pointer {info : FeatureInfo} (hinfo : r.featureAt kind h = .ok info) :
    r.pointer h = .ok info.pointer ∧ r.feature kind info.pointer = .ok info ∧
      info.handle = h := by
  obtain ⟨hel, hkind⟩ := featureAt_eq_ok.1 hinfo
  refine ⟨pointer_of_element? hel, ?_, hr.handle_of_element? hel⟩
  have hfound := hr.handle?_pointer hel
  rw [feature, show r.handle? info.pointer = some h from hfound]
  simp [feature?, hel, Option.filter, hkind]

/-- From the pointer to a classifier to its handle and back. -/
theorem pointer_classifier {p : Pointer} {info : ClassifierInfo}
    (hinfo : r.classifier p = .ok info) : r.pointer info.handle = .ok p := by
  obtain ⟨h, hp, hel⟩ := classifier_eq_ok.1 hinfo
  rw [show info.handle = h from hr.handle_of_element? hel]
  exact hr.pointer_of_handle? hp

/-- From the pointer to a feature to its handle and back. -/
theorem pointer_feature {p : Pointer} {info : FeatureInfo}
    (hinfo : r.feature kind p = .ok info) : r.pointer info.handle = .ok p := by
  obtain ⟨h, hp, hel, -⟩ := feature_eq_ok.1 hinfo
  rw [show info.handle = h from hr.handle_of_element? hel]
  exact hr.pointer_of_handle? hp

/-- What a pointer names is found by its handle. -/
theorem classifierAt_handle {p : Pointer} {info : ClassifierInfo}
    (hinfo : r.classifier p = .ok info) : r.classifierAt info.handle = .ok info := by
  obtain ⟨h, -, hel⟩ := classifier_eq_ok.1 hinfo
  rw [show info.handle = h from hr.handle_of_element? hel]
  exact classifierAt_eq_ok.2 hel

/-- What is found by a pointer is found by its handle, too. -/
theorem featureAt_handle {p : Pointer} {info : FeatureInfo}
    (hinfo : r.feature kind p = .ok info) : r.featureAt kind info.handle = .ok info := by
  obtain ⟨h, -, hel, hkind⟩ := feature_eq_ok.1 hinfo
  rw [show info.handle = h from hr.handle_of_element? hel]
  exact featureAt_eq_ok.2 ⟨hel, hkind⟩

end Lawful

end TypeRegistry

end DeltaForest
