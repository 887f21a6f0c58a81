import DeltaForest.Proofs.Conforming

/-!
# Answers

Whoever asks for something is given an answer: a result or a fault. Which faults there can be is
put together step by step (`FailsOnly`), and so is what can be said of the results (`Answers`).

Most faults say that what is asked for cannot be done. Two say that what is named is not there: a
handle behind the end of the table of elements, and an id that no node has. A step comes to one of
these only if it looks up such a handle or such an id. Which answers are allowed is left open here,
as a property `P` of faults that has to hold of the plain ones (`AllowsPlain`). A handle or an id
may be asked for (`Askable`) if it is there, or if it is allowed to say that it is not. Then each
step that looks something up has one lemma that asks for just that.
-/

namespace DeltaForest

section Answers

variable {α β σ : Type}

/-- All faults that a computation can come to have a property. -/
def FailsOnly (P : Fault → Prop) (x : Except Fault α) : Prop :=
  ∀ fault, x = .error fault → P fault

/-- A computation comes to a fault with one property or to a result with another one. -/
def Answers (P : Fault → Prop) (Q : α → Prop) (x : Except Fault α) : Prop :=
  FailsOnly P x ∧ ∀ a, x = .ok a → Q a

variable {P : Fault → Prop} {Q : α → Prop} {R : β → Prop} {x y : Except Fault α}
  {f : α → Except Fault β} {a : α} {fault : Fault} {l : List α}

namespace FailsOnly

theorem ok (a : α) : FailsOnly P (.ok a) := by
  rintro fault ⟨⟩

theorem error (h : P fault) : FailsOnly P (.error fault : Except Fault α) := by
  rintro fault' ⟨⟩
  exact h

/-- Of two steps the second one matters wherever the first one gets to. -/
theorem bind (h : FailsOnly P x) (hf : ∀ a, x = .ok a → FailsOnly P (f a)) :
    FailsOnly P (x >>= f) := by
  rcases x with fault | a
  · exact .error (h fault rfl)
  · exact hf a rfl

theorem ite {p : Prop} [Decidable p] (hx : p → FailsOnly P x) (hy : ¬p → FailsOnly P y) :
    FailsOnly P (if p then x else y) := by
  split
  · next hp => exact hx hp
  · next hp => exact hy hp

/-- A loop fails only as its steps may. -/
theorem forM {f : α → Except Fault Unit} (h : ∀ a ∈ l, FailsOnly P (f a)) :
    FailsOnly P (l.forM f) := by
  induction l with
  | nil => exact .ok ()
  | cons a l ih =>
    obtain ⟨ha, hl⟩ := List.forall_mem_cons.1 h
    exact ha.bind fun _ _ => ih hl

/-- A pass over a list fails only as its steps may. -/
theorem mapM (h : ∀ a ∈ l, FailsOnly P (f a)) : FailsOnly P (l.mapM f) := by
  induction l with
  | nil => exact .ok []
  | cons a l ih =>
    obtain ⟨ha, hl⟩ := List.forall_mem_cons.1 h
    rw [List.mapM_cons]
    exact ha.bind fun _ _ => (ih hl).bind fun _ _ => .ok _

end FailsOnly

namespace Answers

theorem ok (h : Q a) : Answers P Q (.ok a) := by
  refine ⟨.ok a, ?_⟩
  rintro a' ⟨⟩
  exact h

theorem error (h : P fault) : Answers P Q (.error fault) := by
  refine ⟨.error h, ?_⟩
  rintro a ⟨⟩

/-- What is answered is handed on, and with it what is known of it. -/
theorem bind (h : Answers P Q x) (hf : ∀ a, Q a → Answers P R (f a)) :
    Answers P R (x >>= f) := by
  rcases x with fault | a
  · exact .error (h.1 fault rfl)
  · exact hf a (h.2 a rfl)

theorem imp {Q' : α → Prop} (h : Answers P Q x) (hQ : ∀ a, Q a → Q' a) : Answers P Q' x :=
  ⟨h.1, fun a ha => hQ a (h.2 a ha)⟩

/-- Of a step whose result does not matter only the faults do. -/
theorem of_failsOnly (h : FailsOnly P x) : Answers P (fun _ => True) x := ⟨h, fun _ _ => trivial⟩

theorem ite {p : Prop} [Decidable p] (hx : p → Answers P Q x) (hy : ¬p → Answers P Q y) :
    Answers P Q (if p then x else y) := by
  split
  · next hp => exact hx hp
  · next hp => exact hy hp

theorem mapM (h : ∀ a ∈ l, Answers P R (f a)) :
    Answers P (fun bs => ∀ b ∈ bs, R b) (l.mapM f) := by
  induction l with
  | nil => exact .ok (List.forall_mem_nil _)
  | cons a l ih =>
    obtain ⟨ha, hl⟩ := List.forall_mem_cons.1 h
    rw [List.mapM_cons]
    exact ha.bind fun b hb => (ih hl).bind fun bs hbs => .ok (List.forall_mem_cons.2 ⟨hb, hbs⟩)

/-- What each step keeps is kept by all of them. -/
theorem foldlM {step : σ → α → Except Fault σ} {Q : σ → Prop} {s : σ}
    (h : ∀ s, ∀ a ∈ l, Q s → Answers P Q (step s a)) (hs : Q s) :
    Answers P Q (l.foldlM step s) := by
  induction l generalizing s with
  | nil => exact .ok hs
  | cons a l ih =>
    rw [List.foldlM_cons]
    refine (h s a List.mem_cons_self hs).bind fun s' hs' => ih (fun s a ha => ?_) hs'
    exact h s a (List.mem_cons_of_mem _ ha)

end Answers

end Answers

/-! ## Plain faults -/

/-- A fault that neither says that something is not there nor that a list is edited where it has
    no position. -/
def Fault.IsPlain : Fault → Prop
  | .foreignHandle _ | .unknownNode _ | .staleChange _ => False
  | _ => True

/-- Plain faults are allowed. -/
def AllowsPlain (P : Fault → Prop) : Prop := ∀ fault : Fault, fault.IsPlain → P fault

variable {P : Fault → Prop}

/-- A plain fault is allowed wherever plain faults are. -/
theorem AllowsPlain.error {α : Type} {fault : Fault} (hp : AllowsPlain P) (h : fault.IsPlain) :
    FailsOnly P (.error fault : Except Fault α) :=
  .error (hp fault h)

/-! ## Handles -/

namespace TypeRegistry

variable {r : TypeRegistry} {h : Handle} {kind : ElementKind}

/-- A handle within the table of elements. -/
def Issued (r : TypeRegistry) (h : Handle) : Prop := h.index < r.elements.length

/-- A handle that is issued, unless it may be said that it is not. -/
def Askable (P : Fault → Prop) (r : TypeRegistry) (h : Handle) : Prop :=
  r.Issued h ∨ P (.foreignHandle h)

/-- A handle that stands for an element has been issued. -/
theorem issued_of_element? {el : Element} (hel : r.element? h = some el) : r.Issued h :=
  (List.getElem?_eq_some_iff.1 hel).1

theorem issued_of_classifierAt {info : ClassifierInfo} (hinfo : r.classifierAt h = .ok info) :
    r.Issued h :=
  issued_of_element? (classifierAt_eq_ok.1 hinfo)

theorem issued_of_featureAt {info : FeatureInfo} (hinfo : r.featureAt kind h = .ok info) :
    r.Issued h :=
  issued_of_element? (featureAt_eq_ok.1 hinfo).1

/-- The handles that lead to a pointer are those that may be asked for. -/
theorem failsOnly_pointer_iff : FailsOnly P (r.pointer h) ↔ r.Askable P h := by
  rw [pointer, pointer?, element?, Askable, Issued]
  by_cases hi : h.index < r.elements.length
  · rw [List.getElem?_eq_getElem hi]
    exact iff_of_true (.ok _) (.inl hi)
  · rw [List.getElem?_eq_none (Nat.le_of_not_lt hi), or_iff_right hi]
    exact ⟨fun hfails => hfails _ rfl, fun hallowed => .error hallowed⟩

variable (hp : AllowsPlain P)

include hp

/-- The fault about a wrong kind tells the element by its name, which is looked up. -/
theorem failsOnly_mismatch {α : Type} (hi : r.Askable P h) :
    FailsOnly P (r.mismatch h kind : Except Fault α) :=
  (failsOnly_pointer_iff.2 hi).bind fun _ _ => hp.error trivial

/-- Looking up a classifier fails only if something else is there, or nothing. -/
theorem failsOnly_classifierAt (hi : r.Askable P h) : FailsOnly P (r.classifierAt h) := by
  rw [classifierAt]
  split
  · exact .ok _
  · exact failsOnly_mismatch hp hi

/-- Looking up a feature fails only if something else is there, or nothing. -/
theorem failsOnly_featureAt (hi : r.Askable P h) : FailsOnly P (r.featureAt kind h) := by
  rw [featureAt]
  split
  · exact .ok _
  · exact failsOnly_mismatch hp hi

end TypeRegistry

/-- The handles that are stored on a node. -/
def Node.handles (n : Node) : List Handle :=
  n.classifier :: (n.properties.keys ++ n.containments.keys ++ n.references.keys)

namespace Node

variable {n : Node} {h : Handle}

/-- The handles on a node are its classifier and the features that it has something stored for. -/
theorem mem_handles : h ∈ n.handles ↔
    h = n.classifier ∨ h ∈ n.properties ∨ h ∈ n.containments ∨ h ∈ n.references := by
  simp only [handles, List.mem_cons, List.mem_append, Std.ExtTreeMap.mem_keys, or_assoc]

/-- What a node has something for is stored on it. -/
theorem mem_handles_of_setFeatures (hset : h ∈ Model.setFeatures n) : h ∈ n.handles := by
  have hlist {α : Type} {m : FeatureMap (List α)}
      (hmem : h ∈ (m.toList.filter (!·.2.isEmpty)).map (·.1)) : h ∈ m := by
    obtain ⟨⟨k, l⟩, hfilter, rfl⟩ := List.mem_map.1 hmem
    have hpair := (List.mem_filter.1 hfilter).1
    exact mem_of_lookup (Std.ExtTreeMap.mem_toList_iff_getElem?_eq_some.1 hpair)
  -- A list that holds nothing counts for nothing, but it is stored all the same.
  rw [Model.setFeatures, List.mem_append, List.mem_append, Std.ExtTreeMap.mem_keys] at hset
  rcases hset with (hp | hc) | hr
  · exact mem_handles.2 (.inr (.inl hp))
  · exact mem_handles.2 (.inr (.inr (.inl (hlist hc))))
  · exact mem_handles.2 (.inr (.inr (.inr (hlist hr))))

end Node

/-! ## Ids -/

namespace NodeTable

variable {t : NodeTable} {id root : NodeId}

/-- The id of a node that is there, unless it may be said that it is not. -/
def Askable (P : Fault → Prop) (t : NodeTable) (id : NodeId) : Prop :=
  id ∈ t ∨ P (.unknownNode id)

/-- The ids of nodes that are found are those that may be asked for. -/
theorem failsOnly_get_iff : FailsOnly P (t.get id) ↔ t.Askable P id := by
  rw [get, Askable]
  split
  · next n hn => exact iff_of_true (.ok _) (.inl (mem_of_lookup hn))
  · next hnone =>
    rw [or_iff_right (notMem_iff.2 hnone)]
    exact ⟨fun hfails => hfails _ rfl, fun hallowed => .error hallowed⟩

/-- A node is collected with everything below it if all of it may be asked for. -/
theorem failsOnly_collect (h : ∀ k ∈ t.depthFirst root, t.Askable P k) :
    FailsOnly P (t.collect root) := by
  refine .bind (.mapM fun id hid => failsOnly_get_iff.2 (h id hid)) fun nodes hnodes => ?_
  -- At least the root is there.
  obtain ⟨rest, hrest⟩ := depthFirst_eq_cons t root
  rw [hrest] at hnodes
  cases mapM_eq_ok.1 hnodes
  exact .ok _

end NodeTable

end DeltaForest
