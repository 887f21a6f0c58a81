import DeltaForest.Examples.LibraryAndShop
import DeltaForest.Proofs.Declared
import DeltaForest.Proofs.Steps
import Std.Data.ExtHashMap

/-!
# Filling a registry

A registry of types is filled in place: elements are pushed one by one, each under the handle that
is next, an index of pointers is kept beside them, and the features of a classifier are listed on it
once they are all there (`Ledger.Action.register`). Handles have 32 bits. As long as they last, a
registry that is filled in place comes to the same as one that languages are appended to as a whole
(`Ledger.attemptAll_eq`), and a call that fails leaves it as it was.

Whatever has been asked of a registry, and whichever of the calls have failed, the law of
`TypeRegistry.Orderly` holds: handles and pointers lead to each other, stay what they are, and every
feature is declared by its owner alone (`TypeRegistry.orderly`).
-/

namespace DeltaForest

theorem Language.pointer_injective (l : Language) : Function.Injective l.pointer := fun _ _ h =>
  (Pointer.mk.inj h).2.2

/-! ## Calls of which some fail -/

namespace TypeRegistry

variable {r r' : TypeRegistry} {l : Language} {calls : List Language} {fault : Fault}

/-- The registry after a call to register a language. -/
def attempt (r : TypeRegistry) (l : Language) : TypeRegistry :=
  match r.register l with
  | .ok r' => r'
  | .error _ => r

/-- The registry after some calls to register languages. -/
def attemptAll (r : TypeRegistry) (calls : List Language) : TypeRegistry :=
  calls.foldl attempt r

/-- The languages that are registered by some calls. -/
def accepted (r : TypeRegistry) : List Language → List Language
  | [] => []
  | l :: rest =>
    match r.register l with
    | .ok r' => l :: accepted r' rest
    | .error _ => accepted r rest

/-- Calls that fail might as well not have been made. -/
theorem registerAll_accepted : r.registerAll (r.accepted calls) = .ok (r.attemptAll calls) := by
  induction calls generalizing r with
  | nil => rfl
  | cons l calls ih =>
    rw [accepted, attemptAll, List.foldl_cons, attempt]
    cases hl : r.register l with
    | ok r' =>
      rw [registerAll, List.foldlM_cons, hl, ok_bind]
      exact ih
    | error fault => exact ih

/-- What is registered stays where it is. -/
theorem prefix_attempt : r.elements <+: (r.attempt l).elements := by
  rw [attempt]
  cases hl : r.register l with
  | ok r' =>
    obtain ⟨-, rfl⟩ := register_eq_ok.1 hl
    exact List.prefix_append _ _
  | error fault => exact List.prefix_refl _

theorem prefix_attemptAll : r.elements <+: (r.attemptAll calls).elements := by
  induction calls generalizing r with
  | nil => exact List.prefix_refl _
  | cons l calls ih => exact prefix_attempt.trans ih

/-! ## What is refused -/

/-- A pointer that is taken was so before, or stands twice. -/
theorem mem_of_firstTaken {taken ps : List Pointer} {p : Pointer}
    (h : firstTaken taken ps = some p) : p ∈ ps ∧ (p ∈ taken ∨ 2 ≤ ps.count p) := by
  induction ps generalizing taken with
  | nil => cases h
  | cons q ps ih =>
    rw [firstTaken] at h
    split at h
    · next hq =>
      obtain rfl := Option.some.inj h
      exact ⟨List.mem_cons_self, .inl hq⟩
    · obtain ⟨hmem, htaken⟩ := ih h
      have hcount : ps.count p ≤ (q :: ps).count p := List.count_le_count_cons
      refine ⟨List.mem_cons_of_mem _ hmem, ?_⟩
      rcases htaken with htaken | htwice
      · -- What was taken by then was so before, or stands in front.
        rcases List.mem_cons.1 htaken with rfl | htaken
        · rw [List.count_cons_self]
          exact .inr (Nat.succ_le_succ (List.count_pos_iff.2 hmem))
        · exact .inl htaken
      · exact .inr (Nat.le_trans htwice hcount)

theorem register_eq_error : r.register l = .error fault ↔ ∃ p, fault = .duplicatePointer p ∧
    firstTaken (r.elements.map Element.pointer) ((keys l).map l.pointer) = some p := by
  rw [register]
  cases firstTaken (r.elements.map Element.pointer) ((keys l).map l.pointer) with
  | none => simp
  | some p => simp [eq_comm]

/-- A pointer leads somewhere if it is that of an element. -/
theorem isSome_handle? {p : Pointer} :
    (r.handle? p).isSome ↔ p ∈ r.elements.map Element.pointer := by
  rw [handle?, Option.isSome_map, List.find?_isSome]
  simp [List.mem_map]

/-- A language that is refused is so over a key that stands twice in it or whose pointer is
    registered. -/
theorem exists_key_of_register (h : r.register l = .error fault) :
    ∃ key ∈ keys l, fault = .duplicatePointer (l.pointer key) ∧
      (2 ≤ (keys l).count key ∨ (r.handle? (l.pointer key)).isSome) := by
  obtain ⟨p, rfl, hp⟩ := register_eq_error.1 h
  obtain ⟨hmem, htaken⟩ := mem_of_firstTaken hp
  obtain ⟨key, hkey, rfl⟩ := List.mem_map.1 hmem
  refine ⟨key, hkey, rfl, ?_⟩
  rw [isSome_handle?, ← List.count_map_of_injective _ _ l.pointer_injective]
  exact htaken.symm

theorem exists_error_iff : (∃ fault, r.register l = .error fault) ↔
    ¬(keys l).Nodup ∨ ∃ key ∈ keys l, (r.handle? (l.pointer key)).isSome := by
  constructor
  · rintro ⟨fault, h⟩
    obtain ⟨key, hkey, -, htwice | htaken⟩ := exists_key_of_register h
    · exact .inl fun hnodup => Nat.not_lt_of_le (List.nodup_iff_count_le_one.1 hnodup key) htwice
    · exact .inr ⟨key, hkey, htaken⟩
  · intro h
    cases hp : firstTaken (r.elements.map Element.pointer) ((keys l).map l.pointer) with
    | some p => exact ⟨_, register_eq_error.2 ⟨p, rfl, hp⟩⟩
    | none =>
      -- Then no pointer is taken, and none stands twice.
      obtain ⟨hnodup, hfree⟩ := firstTaken_eq_none.1 hp
      rcases h with htwice | ⟨key, hkey, htaken⟩
      · exact absurd (List.Nodup.of_map _ hnodup) htwice
      · exact absurd (isSome_handle?.1 htaken) (hfree _ (List.mem_map_of_mem hkey))

end TypeRegistry

/-! ## In place -/

open TypeRegistry

deriving instance Hashable for Pointer

/-- A registry as it is filled, with an index of the pointers in it. -/
structure Ledger extends TypeRegistry where
  index : Std.ExtHashMap Pointer Handle

/-- An action on a ledger. If it fails, the ledger is as the failing step found it. -/
abbrev Ledger.Action : Type → Type := EStateM Fault Ledger

/-- A classifier with other features listed on it. -/
def Element.listing (features : List Handle) : Element → Element
  | classifier info => classifier { info with features := features }
  | feature info => feature info

namespace Ledger

/-- A ledger without languages. -/
def empty : Ledger := ⟨TypeRegistry.empty, ∅⟩

/-- The handle of the next element. Behind the highest handle there is no other one. -/
def nextHandle (b : Ledger) : Handle := ⟨min b.elements.length (UInt32.size - 1)⟩

namespace Action

/-- Puts an element behind the others. -/
def push (el : Element) : Action Unit :=
  modify fun b =>
    { b with elements := b.elements ++ [el], index := b.index.insert el.pointer el.handle }

/-- Refuses keys that stand twice or whose pointers are registered. -/
def checkFree (l : Language) (seen : List Pointer) : List String → Action Unit
  | [] => return ()
  | key :: rest => do
    let p := l.pointer key
    if (← get).index.contains p || p ∈ seen then throw (.duplicatePointer p)
    checkFree l (p :: seen) rest

/-- Pushes a feature of a classifier. -/
def addFeature (l : Language) (owner : Handle) (f : Feature) : Action Handle := do
  let handle := (← get).nextHandle
  push (.feature
    { handle := handle, pointer := l.pointer f.key, name := f.name, owner := owner,
      kind := f.kind })
  return handle

/-- Pushes a classifier and its features, and then lists them on it. -/
def addClassifier (l : Language) (c : Classifier) : Action Unit := do
  let handle := (← get).nextHandle
  push (.classifier
    { handle := handle, pointer := l.pointer c.key, name := c.name, kind := c.kind,
      isPartition := c.isPartition, features := [] })
  let features ← c.features.mapM (addFeature l handle)
  modify fun b => { b with elements := b.elements.modify handle.index (.listing features) }

/-- Registers a language. -/
def register (l : Language) : Action Unit := do
  checkFree l [] (keys l)
  l.classifiers.forM (addClassifier l)
  modify fun b => { b with languages := b.languages ++ [(l.key, l.version)] }

end Action

/-- The ledger after some calls to register languages. -/
def attemptAll (b : Ledger) (calls : List Language) : Ledger :=
  calls.foldl (fun b l => stateAfter (Action.register l b)) b

/-- The index leads every pointer where it leads in the registry. -/
def Indexed (b : Ledger) : Prop := ∀ p, b.index[p]? = b.toTypeRegistry.handle? p

/-- A ledger with some more elements. -/
def extended (b : Ledger) (els : List Element) : Ledger :=
  { b with
    elements := b.elements ++ els
    index := els.foldl (fun index el => index.insert el.pointer el.handle) b.index }

variable {b b' : Ledger} {l : Language} {fault : Fault} {els els' : List Element}

theorem extended_append : (b.extended els).extended els' = b.extended (els ++ els') := by
  rw [extended, extended, extended, List.append_assoc, List.foldl_append]

theorem nextHandle_eq (h : b.elements.length < UInt32.size) : b.nextHandle = ⟨b.elements.length⟩ :=
  congrArg Handle.mk (by omega)

/-! ### The index -/

theorem indexed_empty : empty.Indexed := fun p => by simp [empty, handle?, TypeRegistry.empty]

/-- An element whose pointer is new goes into the index as it goes into the registry. -/
theorem Indexed.push {el : Element} (hb : b.Indexed)
    (hnew : el.pointer ∉ b.elements.map Element.pointer) : (b.extended [el]).Indexed := by
  intro p
  show (b.index.insert el.pointer el.handle)[p]? =
    ((b.elements ++ [el]).find? (·.pointer = p)).map Element.handle
  rw [Std.ExtHashMap.getElem?_insert, List.find?_append, hb p, handle?]
  by_cases hp : el.pointer = p
  · rw [find?_eq_none_of_notMem (hp ▸ hnew)]
    simp [hp]
  · simp [hp]

theorem Indexed.extended (hb : b.Indexed) (hd : (els.map Element.pointer).Nodup)
    (hnew : ∀ p ∈ els.map Element.pointer, p ∉ b.elements.map Element.pointer) :
    (b.extended els).Indexed := by
  induction els generalizing b with
  | nil =>
    intro p
    simpa [Ledger.extended] using hb p
  | cons el els ih =>
    rw [List.map_cons, List.nodup_cons] at hd
    rw [List.map_cons, List.forall_mem_cons] at hnew
    rw [← List.singleton_append, ← extended_append]
    refine ih (hb.push hnew.1) hd.2 fun p hp hmem => ?_
    -- Pushed was an element of the ledger or the one before.
    rw [Ledger.extended, List.map_append, List.mem_append] at hmem
    rcases hmem with hmem | hmem
    · exact hnew.2 p hp hmem
    · exact hd.1 (List.mem_singleton.1 hmem ▸ hp)

theorem Indexed.contains_iff (hb : b.Indexed) (p : Pointer) :
    b.index.contains p = true ↔ p ∈ b.elements.map Element.pointer := by
  rw [Std.ExtHashMap.contains_eq_isSome_getElem?, hb p, isSome_handle?]

/-! ### Step by step -/

/-- The check in place looks for what is taken in the index and among what it has seen. -/
theorem checkFree_eq {taken seen : List Pointer}
    (htaken : ∀ p, p ∈ taken ↔ b.index.contains p = true ∨ p ∈ seen) (ks : List String) :
    Action.checkFree l seen ks b =
      match firstTaken taken (ks.map l.pointer) with
      | some p => .error (.duplicatePointer p) b
      | none => .ok () b := by
  induction ks generalizing taken seen with
  | nil => rfl
  | cons key ks ih =>
    rw [Action.checkFree, List.map_cons, firstTaken]
    have hor : (b.index.contains (l.pointer key) || decide (l.pointer key ∈ seen)) = true ↔
        l.pointer key ∈ taken := by rw [Bool.or_eq_true, decide_eq_true_iff, htaken]
    rw [bind_of_ok (show (get : Action Ledger) b = .ok b b from rfl)]
    -- What has been seen in this language counts as taken, too.
    by_cases hp : l.pointer key ∈ taken
    · simp only [hor.2 hp, if_pos hp, if_true]
      rfl
    · have htaken' (p : Pointer) : p ∈ l.pointer key :: taken ↔
          b.index.contains p = true ∨ p ∈ l.pointer key :: seen := by
        rw [List.mem_cons, List.mem_cons, htaken]
        exact or_left_comm
      have hnext := ih htaken'
      simp only [Bool.eq_false_iff.2 (mt hor.1 hp), if_neg hp, ← hnext]
      rfl

/-- Features get the handles that are next. -/
theorem addFeatures_eq {owner : Handle} {fs : List Feature}
    (hroom : b.elements.length + fs.length ≤ UInt32.size) :
    fs.mapM (Action.addFeature l owner) b =
      .ok ((List.range fs.length).map fun i => ⟨b.elements.length + i⟩)
        (b.extended (fs.mapIdx fun i f =>
          .feature (featureInfo l owner ⟨b.elements.length + i⟩ f))) := by
  induction fs generalizing b with
  | nil => simp [extended]; rfl
  | cons f fs ih =>
    rw [List.length_cons] at hroom
    have hnext := nextHandle_eq (b := b) (by omega)
    have hfirst : Action.addFeature l owner f b = .ok ⟨b.elements.length⟩
        (b.extended [.feature (featureInfo l owner ⟨b.elements.length⟩ f)]) := by
      rw [← hnext]
      rfl
    generalize hel : Element.feature _ = el at hfirst
    have hlength : (b.extended [el]).elements.length = b.elements.length + 1 := List.length_append
    rw [List.mapM_cons, bind_of_ok hfirst, bind_of_ok (ih (by omega)), extended_append, hlength]
    subst hel
    -- The rest has been counted from the next handle on.
    have hcount (i : Nat) : b.elements.length + 1 + i = b.elements.length + (i + 1) := by omega
    simp only [hcount, List.length_cons, List.range_succ_eq_map, List.map_cons, List.map_map,
      List.mapIdx_cons, Nat.add_zero]
    rfl

/-- Features that are listed on an element behind others change neither its pointer nor its
    handle, so the index stays right. -/
theorem extended_listing {el : Element} (features : List Handle) :
    ({ b.extended (el :: els) with
        elements := (b.extended (el :: els)).elements.modify b.elements.length
          (.listing features) } : Ledger) = b.extended (el.listing features :: els) := by
  have helements : (b.elements ++ el :: els).modify b.elements.length (.listing features) =
      b.elements ++ el.listing features :: els := by
    rw [List.modify_eq_take_drop]
    simp
  rw [extended, extended, helements]
  cases el <;> rfl

/-- A classifier is pushed with its features, and is in the end as if they had been listed on it
    from the start. -/
theorem addClassifier_eq {c : Classifier}
    (hroom : b.elements.length + 1 + c.features.length ≤ UInt32.size) :
    Action.addClassifier l c b =
      .ok () (b.extended (elementsOf l b.elements.length c)) := by
  have hnext := nextHandle_eq (b := b) (by omega)
  rw [Action.addClassifier, bind_of_ok (show (get : Action Ledger) b = .ok b b from rfl), hnext]
  dsimp only
  -- The classifier comes without features first.
  generalize hel : Element.classifier _ = el
  have hpush : Action.push el b = .ok () (b.extended [el]) := rfl
  have hlength : (b.extended [el]).elements.length = b.elements.length + 1 := List.length_append
  rw [bind_of_ok hpush, bind_of_ok (addFeatures_eq (by omega)), extended_append, hlength]
  refine congrArg (EStateM.Result.ok ()) ((extended_listing _).trans ?_)
  subst hel
  rfl

theorem addClassifiers_eq {cs : List Classifier}
    (hroom : b.elements.length + (elementsFrom l b.elements.length cs).length ≤ UInt32.size) :
    cs.forM (Action.addClassifier l) b =
      .ok () (b.extended (elementsFrom l b.elements.length cs)) := by
  induction cs generalizing b with
  | nil => simp [extended, elementsFrom]; rfl
  | cons c cs ih =>
    rw [elementsFrom, List.length_append, length_elementsOf] at hroom
    have hlength : (b.extended (elementsOf l b.elements.length c)).elements.length =
        b.elements.length + 1 + c.features.length := by
      rw [extended, List.length_append, length_elementsOf, Nat.add_assoc]
    have hrest := ih (b := b.extended (elementsOf l b.elements.length c)) (by rw [hlength]; omega)
    rw [hlength, extended_append] at hrest
    change (Action.addClassifier l c >>= fun _ => cs.forM (Action.addClassifier l)) b = _
    rw [bind_of_ok (addClassifier_eq (by omega)), hrest, elementsFrom]

/-- Pushing does not fail, whether there are handles left or not. -/
theorem exists_addClassifiers (cs : List Classifier) :
    ∃ b', cs.forM (Action.addClassifier l) b = .ok () b' := by
  -- No step checks anything, so each of them can be made in whatever state.
  have hfeatures (owner : Handle) (fs : List Feature) (b : Ledger) :
      ∃ handles b', fs.mapM (Action.addFeature l owner) b = .ok handles b' := by
    induction fs generalizing b with
    | nil => exact ⟨_, _, rfl⟩
    | cons f fs ih =>
      obtain ⟨handles, b', hrest⟩ := ih (stateAfter (Action.addFeature l owner f b))
      refine ⟨b.nextHandle :: handles, b', ?_⟩
      rw [List.mapM_cons, bind_of_ok (show Action.addFeature l owner f b = .ok _ _ from rfl)]
      exact bind_of_ok hrest
  induction cs generalizing b with
  | nil => exact ⟨b, rfl⟩
  | cons c cs ih =>
    obtain ⟨handles, b₁, hfs⟩ := hfeatures b.nextHandle c.features
      (stateAfter (Action.push (.classifier ⟨b.nextHandle, l.pointer c.key, c.name, c.kind,
        c.isPartition, []⟩) b))
    have hfirst : Action.addClassifier l c b = .ok () { b₁ with
        elements := b₁.elements.modify b.nextHandle.index (.listing handles) } := bind_of_ok hfs
    obtain ⟨b', hrest⟩ := ih (b := _)
    exact ⟨b', (bind_of_ok hfirst).trans hrest⟩

/-! ### Whole languages -/

/-- The check in place refuses what is refused as a whole. -/
theorem checkFree_keys (hb : b.Indexed) : Action.checkFree l [] (keys l) b =
    match firstTaken (b.elements.map Element.pointer) ((keys l).map l.pointer) with
    | some p => .error (.duplicatePointer p) b
    | none => .ok () b :=
  checkFree_eq (fun p => by simp [← hb.contains_iff]) (keys l)

/-- A language is refused in place if it is refused as a whole, and then nothing has been
    pushed. -/
theorem register_eq_error_iff (hb : b.Indexed) : Action.register l b = .error fault b' ↔
    b.toTypeRegistry.register l = .error fault ∧ b' = b := by
  have hcheck := checkFree_keys (l := l) hb
  rw [register_eq_error, Action.register]
  cases hp : firstTaken (b.elements.map Element.pointer) ((keys l).map l.pointer) with
  | some p =>
    rw [hp] at hcheck
    rw [bind_of_error hcheck]
    simp [eq_comm]
  | none =>
    rw [hp] at hcheck
    obtain ⟨b₁, hpush⟩ := exists_addClassifiers (l := l) (b := b) l.classifiers
    rw [bind_of_ok hcheck, bind_of_ok hpush]
    simp only [reduceCtorEq, and_false, exists_false, false_and, iff_false]
    exact nofun

/-- As long as there are handles, a language that is accepted is so in place. -/
theorem register_of_ok {r' : TypeRegistry} (hb : b.Indexed)
    (h : b.toTypeRegistry.register l = .ok r') (hroom : r'.elements.length ≤ UInt32.size) :
    ∃ b', Action.register l b = .ok () b' ∧ b'.toTypeRegistry = r' ∧ b'.Indexed := by
  obtain ⟨hfree, rfl⟩ := register_eq_ok.1 h
  have hcheck := checkFree_keys (l := l) hb
  rw [hfree] at hcheck
  rw [List.length_append] at hroom
  rw [Action.register, bind_of_ok hcheck, bind_of_ok (addClassifiers_eq hroom)]
  refine ⟨_, rfl, rfl, fun p => ?_⟩
  obtain ⟨hnodup, hnew⟩ := firstTaken_eq_none.1 hfree
  rw [keys, ← pointers_elementsFrom] at hnodup hnew
  exact hb.extended hnodup hnew p

/-- As long as there are handles, calls come to the same in place, whichever of them fail. -/
theorem attemptAll_eq {calls : List Language} (hb : b.Indexed)
    (hroom : (b.toTypeRegistry.attemptAll calls).elements.length ≤ UInt32.size) :
    (b.attemptAll calls).toTypeRegistry = b.toTypeRegistry.attemptAll calls ∧
      (b.attemptAll calls).Indexed := by
  induction calls generalizing b with
  | nil => exact ⟨rfl, hb⟩
  | cons l calls ih =>
    rw [TypeRegistry.attemptAll, List.foldl_cons, attempt] at hroom ⊢
    rw [Ledger.attemptAll, List.foldl_cons]
    cases hl : b.toTypeRegistry.register l with
    | ok r' =>
      rw [hl] at hroom
      -- What this call has brought is among all that there is in the end.
      have hprefix : r'.elements <+: (r'.attemptAll calls).elements := prefix_attemptAll
      have hle := Nat.le_trans hprefix.length_le hroom
      obtain ⟨b', hregister, rfl, hb'⟩ := register_of_ok hb hl hle
      rw [hregister]
      exact ih hb' hroom
    | error fault =>
      rw [hl] at hroom
      rw [(register_eq_error_iff hb).2 ⟨hl, rfl⟩]
      exact ih hb hroom

end Ledger

/-! ## The law of a registry -/

namespace TypeRegistry

variable {languages calls : List Language} {r : TypeRegistry}

/-- What holds of a registry of languages, and of the ledger in which it has been filled. -/
structure Orderly (languages : List Language) (r : TypeRegistry) (b : Ledger) : Prop where
  /-- The ledger holds the registry, and its index leads where the registry does. -/
  filled : b.toTypeRegistry = r ∧ ∀ p, b.index[p]? = r.handle? p
  /-- A call that fails leaves everything as it was. -/
  failing : ∀ l fault b', Ledger.Action.register l b = .error fault b' ↔
    r.register l = .error fault ∧ b' = b
  /-- A call fails over a key that stands twice in the language or whose pointer is registered. -/
  refusing : ∀ l, (∃ fault, r.register l = .error fault) ↔
    ¬(keys l).Nodup ∨ ∃ key ∈ keys l, (r.handle? (l.pointer key)).isSome
  /-- That key is the one that is named. -/
  naming : ∀ l fault, r.register l = .error fault →
    ∃ key ∈ keys l, fault = .duplicatePointer (l.pointer key) ∧
      (2 ≤ (keys l).count key ∨ (r.handle? (l.pointer key)).isSome)
  /-- Handles are numbers without gaps. -/
  dense : ∀ (i : Nat) (el : Element), r.elements[i]? = some el → el.handle = ⟨i⟩
  /-- They are in the order of the languages, the classifiers, and the features behind each. -/
  ordered : r.elements.map Element.pointer =
    languages.flatMap fun l => (keys l).map l.pointer
  /-- A handle means the same for good. -/
  lasting : ∀ more h el, r.element? h = some el → (r.attemptAll more).element? h = some el
  /-- The pointer of a handle leads back to it. -/
  issued : ∀ h : Handle, h.index < r.elements.length →
    ∃ p, r.pointer h = .ok p ∧ r.handle? p = some h
  /-- The handle to which a pointer leads has that pointer. -/
  leading : ∀ h p, r.handle? p = some h → r.pointer h = .ok p
  /-- A classifier is registered as a language has it, with its features in their order. -/
  declared : ∀ h info, r.classifier? h = some info →
    ∃ l ∈ languages, ∃ c ∈ l.classifiers, info = classifierInfo l h.index c ∧
      List.Forall₂ (fun feature f => r.feature? feature = some (featureInfo l h feature f))
        info.features c.features
  /-- A feature is listed once by its owner, and by nobody else. -/
  owned : ∀ feature info, r.feature? feature = some info →
    (∃ owner, r.classifier? info.owner = some owner ∧ owner.features.count feature = 1) ∧
      ∀ h other, r.classifier? h = some other → feature ∈ other.features → h = info.owner
  declaring : ∀ h feature, r.declares h feature = true ↔
    ∃ info, r.feature? feature = some info ∧ info.owner = h

/-- After any calls to register languages, with as many elements as there are handles at most, the
    registry is in order. -/
theorem orderly (calls : List Language)
    (hroom : (empty.attemptAll calls).elements.length ≤ UInt32.size) :
    Orderly (empty.accepted calls) (empty.attemptAll calls) (Ledger.empty.attemptAll calls) := by
  obtain ⟨hfilled, hindexed⟩ := Ledger.attemptAll_eq (b := .empty) Ledger.indexed_empty hroom
  change _ = empty.attemptAll calls at hfilled
  -- The calls that are accepted give the registry by themselves; the others have left it as it is.
  have haccepted : empty.registerAll (empty.accepted calls) = .ok (empty.attemptAll calls) :=
    registerAll_accepted
  have hlawful := lawful_of_registerAll haccepted
  have hbuilt := built_of_registerAll haccepted
  refine
    { filled := ⟨hfilled, fun p => hfilled ▸ hindexed p⟩
      failing := fun l fault b' => hfilled ▸ Ledger.register_eq_error_iff hindexed
      refusing := fun l => exists_error_iff
      naming := fun l fault => exists_key_of_register
      dense := hlawful.handles
      ordered := hbuilt.pointers
      lasting := fun more h el hel => ?_
      issued := fun h hlt => ?_
      leading := fun h p => hlawful.pointer_of_handle?
      declared := fun h info hinfo => ?_
      owned := fun feature info hinfo => ⟨hbuilt.exists_owner hinfo, fun h other hother hmem => ?_⟩
      declaring := fun h feature => hbuilt.declares_iff }
  · have hmore : (empty.attemptAll calls).elements <+:
        ((empty.attemptAll calls).attemptAll more).elements := prefix_attemptAll
    obtain ⟨later, hlater⟩ := hmore
    rw [element?, ← hlater, List.getElem?_append_left (List.getElem?_eq_some_iff.1 hel).1]
    exact hel
  · have hel := List.getElem?_eq_getElem hlt
    exact ⟨_, pointer_of_element? hel, hlawful.handle?_pointer hel⟩
  · obtain ⟨l, hl, c, hc, rfl, hfeatures⟩ := hbuilt.exists_classifier hinfo
    refine ⟨l, hl, c, hc, rfl, List.forall₂_iff_get.2 ⟨?_, fun i hi hi' => ?_⟩⟩
    · rw [classifierInfo, List.length_map, List.length_range]
    · have hfeature : (classifierInfo l h.index c).features.get ⟨i, hi⟩ = ⟨h.index + 1 + i⟩ := by
        simp [classifierInfo]
      rw [hfeature]
      exact hfeatures i _ (List.getElem?_eq_getElem hi')
  · obtain ⟨info', hinfo', howner⟩ := hbuilt.exists_feature hother hmem
    obtain rfl := Option.some.inj (hinfo.symm.trans hinfo')
    exact howner.symm

end TypeRegistry

namespace Examples

/-- The library is registered, then once more, which is refused, and then a newer one. -/
theorem orderly_newer : TypeRegistry.empty.accepted [library, library, newerLibrary] =
      [library, newerLibrary] ∧
    (TypeRegistry.empty.attemptAll [library, library, newerLibrary]).elements.length = 21 ∧
    Orderly [library, newerLibrary]
      (TypeRegistry.empty.attemptAll [library, library, newerLibrary])
      (Ledger.empty.attemptAll [library, library, newerLibrary]) := by
  have haccepted : TypeRegistry.empty.accepted [library, library, newerLibrary] =
      [library, newerLibrary] := by decide +kernel
  have hlength : (TypeRegistry.empty.attemptAll [library, library, newerLibrary]).elements.length =
      21 := by decide +kernel
  have horderly := TypeRegistry.orderly [library, library, newerLibrary] (by rw [hlength]; decide)
  rw [haccepted] at horderly
  exact ⟨haccepted, hlength, horderly⟩

end Examples

end DeltaForest
