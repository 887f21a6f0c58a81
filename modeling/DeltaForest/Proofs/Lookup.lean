import DeltaForest.Subtree
import Mathlib.Data.List.Forall2

/-!
# Look-up

Nodes are found by id and what a node has for a feature is found by handle, both in ordered maps.
Here are the laws of these maps with equality of keys in place of their comparison, and how a
computation that may fail is taken apart once it is known to succeed.
-/

namespace DeltaForest

/-! ## Computations that succeed -/

section Success

variable {ε α β : Type}

/-- Steps succeed one after the other if each of them does. -/
theorem bind_eq_ok {x : Except ε α} {f : α → Except ε β} {b : β} :
    x >>= f = .ok b ↔ ∃ a, x = .ok a ∧ f a = .ok b := by
  cases x with
  | error e => simp [bind, Except.bind]
  | ok a => simp [bind, Except.bind]

/-- Steps fail one after the other if the first one does or the second one does after it. -/
theorem bind_eq_error {x : Except ε α} {f : α → Except ε β} {e : ε} :
    x >>= f = .error e ↔ x = .error e ∨ ∃ a, x = .ok a ∧ f a = .error e := by
  cases x with
  | error e => simp [bind, Except.bind]
  | ok a => simp [bind, Except.bind]

@[simp] theorem ok_bind (a : α) (f : α → Except ε β) : (Except.ok a >>= f) = f a := rfl

@[simp] theorem error_bind (e : ε) (f : α → Except ε β) :
    ((Except.error e : Except ε α) >>= f) = .error e := rfl

@[simp] theorem pure_eq_ok (a : α) : (pure a : Except ε α) = .ok a := rfl

@[simp] theorem throw_eq_error (e : ε) : (throw e : Except ε α) = .error e := rfl

theorem toOption_eq_some {x : Except ε α} {a : α} : x.toOption = some a ↔ x = .ok a := by
  cases x with
  | error e => simp [Except.toOption]
  | ok b => simp [Except.toOption]

/-- A step without a result has only one. -/
theorem exists_unit {p : Unit → Prop} : (∃ u, p u) ↔ p () :=
  ⟨fun ⟨_, h⟩ => h, fun h => ⟨_, h⟩⟩

/-- A guard lets pass what it does not refuse. -/
theorem guard_eq_ok {p : Prop} [Decidable p] {e : ε} {x : Except ε β} {b : β} :
    (if p then .error e else x) = .ok b ↔ ¬p ∧ x = .ok b := by
  split <;> simp_all

/-- A walk over a list succeeds if it does at every element. -/
theorem forM_eq_ok {l : List α} {f : α → Except ε Unit} :
    l.forM f = .ok () ↔ ∀ a ∈ l, f a = .ok () := by
  induction l with
  | nil => simp
  | cons a l ih =>
    rw [List.forM, bind_eq_ok, List.forall_mem_cons, ← ih]
    exact ⟨fun ⟨_, h, h'⟩ => ⟨h, h'⟩, fun ⟨h, h'⟩ => ⟨_, h, h'⟩⟩

/-- A walk over a list fails at one of its elements. -/
theorem exists_of_forM_eq_error {l : List α} {f : α → Except ε Unit} {e : ε}
    (h : l.forM f = .error e) : ∃ a ∈ l, f a = .error e := by
  induction l with
  | nil => cases h
  | cons a l ih =>
    rw [List.forM, bind_eq_error] at h
    rcases h with ha | ⟨_, -, hl⟩
    · exact ⟨a, List.mem_cons_self, ha⟩
    · obtain ⟨a', ha', hf⟩ := ih hl
      exact ⟨a', List.mem_cons_of_mem _ ha', hf⟩

/-- What is taken element by element succeeds if each element gives its own result. -/
theorem mapM_eq_ok {f : α → Except ε β} {l : List α} {bs : List β} :
    l.mapM f = .ok bs ↔ List.Forall₂ (fun a b => f a = .ok b) l bs := by
  induction l generalizing bs with
  | nil => simp [eq_comm]
  | cons a l ih =>
    simp only [List.mapM_cons, bind_eq_ok, pure_eq_ok, Except.ok.injEq, ih,
      List.forall₂_cons_left_iff]
    constructor
    · rintro ⟨b, hb, bs', hbs', rfl⟩
      exact ⟨b, bs', hb, hbs', rfl⟩
    · rintro ⟨b, bs', hb, hbs', rfl⟩
      exact ⟨b, hb, bs', hbs', rfl⟩

/-- What comes of a list comes of its elements. -/
theorem exists_of_mem_mapM {f : α → Except ε β} {l : List α} {bs : List β}
    (h : l.mapM f = .ok bs) : ∀ b ∈ bs, ∃ a ∈ l, f a = .ok b := by
  intro b hb
  obtain ⟨i, hi, rfl⟩ := List.getElem_of_mem hb
  obtain ⟨hlength, hget⟩ := List.forall₂_iff_get.1 (mapM_eq_ok.1 h)
  exact ⟨l[i], List.getElem_mem _, hget i (hlength ▸ hi) hi⟩

/-- Each element of a list gives something. -/
theorem exists_mem_of_mapM {f : α → Except ε β} {l : List α} {bs : List β}
    (h : l.mapM f = .ok bs) : ∀ a ∈ l, ∃ b ∈ bs, f a = .ok b := by
  intro a ha
  obtain ⟨i, hi, rfl⟩ := List.getElem_of_mem ha
  obtain ⟨hlength, hget⟩ := List.forall₂_iff_get.1 (mapM_eq_ok.1 h)
  exact ⟨bs[i], List.getElem_mem _, hget i hi (hlength ▸ hi)⟩

/-- A list can be taken element by element if each element gives something. -/
theorem exists_mapM {f : α → Except ε β} {l : List α} (h : ∀ a ∈ l, ∃ b, f a = .ok b) :
    ∃ bs, l.mapM f = .ok bs := by
  induction l with
  | nil => exact ⟨[], rfl⟩
  | cons a l ih =>
    obtain ⟨⟨b, hb⟩, hl⟩ := List.forall_mem_cons.1 h
    obtain ⟨bs, hbs⟩ := ih hl
    exact ⟨b :: bs, by rw [List.mapM_cons, hb, ok_bind, hbs]; rfl⟩

/-- What each step keeps is kept by all of them. -/
theorem of_foldlM {P : β → Prop} {step : β → α → Except ε β} {l : List α} {b b' : β}
    (hstep : ∀ b a b', P b → step b a = .ok b' → P b') (hb : P b)
    (h : l.foldlM step b = .ok b') : P b' := by
  induction l generalizing b with
  | nil =>
    cases h
    exact hb
  | cons a l ih =>
    rw [List.foldlM_cons, bind_eq_ok] at h
    obtain ⟨b₁, hfirst, hrest⟩ := h
    exact ih (hstep b a b₁ hb hfirst) hrest

end Success

/-- What is nobody's key is not found. -/
theorem find?_eq_none_of_notMem {α κ : Type} [DecidableEq κ] {key : α → κ} {l : List α} {k : κ}
    (h : k ∉ l.map key) : l.find? (key · = k) = none := by
  rw [List.find?_eq_none]
  intro a ha hk
  exact h (of_decide_eq_true hk ▸ List.mem_map_of_mem ha)

/-! ## Maps -/

section Maps

variable {κ α : Type} [Ord κ] [Std.TransOrd κ] [Std.LawfulEqOrd κ] [DecidableEq κ]
variable (m : Std.ExtTreeMap κ α compare)

/-- What is stored under a key is found there, and under any other key what has been there. -/
theorem lookup_insert (k k' : κ) (a : α) :
    (m.insert k a)[k']? = if k = k' then some a else m[k']? := by
  rw [Std.ExtTreeMap.getElem?_insert]
  simp only [Std.compare_eq_iff_eq]

/-- What is erased is found no more, and under any other key there is what has been there. -/
theorem lookup_erase (k k' : κ) : (m.erase k)[k']? = if k = k' then none else m[k']? := by
  rw [Std.ExtTreeMap.getElem?_erase]
  simp only [Std.compare_eq_iff_eq]

omit [Std.LawfulEqOrd κ] [DecidableEq κ] in
/-- A key is there if something is found under it. -/
theorem mem_iff_exists {m : Std.ExtTreeMap κ α compare} {k : κ} : k ∈ m ↔ ∃ a, m[k]? = some a := by
  rw [← Std.ExtTreeMap.isSome_getElem?_iff_mem, Option.isSome_iff_exists]

omit [Std.LawfulEqOrd κ] [DecidableEq κ] in
theorem mem_of_lookup {m : Std.ExtTreeMap κ α compare} {k : κ} {a : α} (h : m[k]? = some a) :
    k ∈ m := mem_iff_exists.2 ⟨a, h⟩

omit [Std.LawfulEqOrd κ] [DecidableEq κ] in
/-- A key is not there if nothing is found under it. -/
theorem notMem_iff {m : Std.ExtTreeMap κ α compare} {k : κ} : k ∉ m ↔ m[k]? = none := by
  rw [← Std.ExtTreeMap.isSome_getElem?_iff_mem, Option.not_isSome_iff_eq_none]

omit [DecidableEq κ] in
/-- The keys of a map are different from each other. -/
theorem nodup_keys : m.keys.Nodup :=
  m.distinct_keys.imp fun h e => h (Std.compare_eq_iff_eq.2 e)

omit [DecidableEq κ] in
/-- No entry is listed twice, as no key is. -/
theorem nodup_toList : m.toList.Nodup :=
  m.distinct_keys_toList.imp fun h e => h (Std.compare_eq_iff_eq.2 (congrArg Prod.fst e))

/-- A map with one more key: what stood at that key is gone, the rest is kept. -/
theorem toList_insert_perm (k : κ) (a : α) :
    (m.insert k a).toList.Perm ((k, a) :: (m.erase k).toList) := by
  rw [List.perm_ext_iff_of_nodup (nodup_toList _)
    (List.nodup_cons.2 ⟨by simp, nodup_toList _⟩)]
  intro ⟨k', a'⟩
  simp only [List.mem_cons, Std.ExtTreeMap.mem_toList_iff_getElem?_eq_some, lookup_insert,
    lookup_erase, Prod.mk.injEq]
  by_cases hk : k = k'
  · simp [hk, eq_comm]
  · simp [hk, Ne.symm hk]

/-- A key and what stands there may be taken out first. -/
theorem toList_perm_of_lookup {k : κ} {a : α} (h : m[k]? = some a) :
    m.toList.Perm ((k, a) :: (m.erase k).toList) := by
  have : m.insert k a = m := by
    ext k' a'
    rw [lookup_insert]
    by_cases hk : k = k'
    · rw [if_pos hk, ← hk, h]
    · rw [if_neg hk]
  have hp := toList_insert_perm m k a
  rwa [this] at hp

/-- Erasing what is not there changes nothing. -/
theorem erase_eq_self {k : κ} (h : m[k]? = none) : m.erase k = m := by
  ext k' a'
  rw [lookup_erase]
  by_cases hk : k = k'
  · rw [if_pos hk, ← hk, h]
  · rw [if_neg hk]

/-- A map with some pairs put into it, as far as they are to be kept. -/
def gather (keep : α → Bool) (l : List (κ × α)) : Std.ExtTreeMap κ α compare :=
  l.foldl (fun m p => if keep p.2 then m.insert p.1 p.2 else m) m

/-- What is gathered is found first, as far as it is kept, and behind it what has been there. -/
theorem lookup_gather (keep : α → Bool) {l : List (κ × α)} (hd : (l.map (·.1)).Nodup) (k : κ) :
    (gather m keep l)[k]? = (((l.find? (·.1 = k)).map (·.2)).filter keep).or m[k]? := by
  induction l generalizing m with
  | nil => rfl
  | cons p l ih =>
    rw [List.map_cons, List.nodup_cons] at hd
    rw [gather, List.foldl_cons, ← gather, ih _ hd.2, List.find?_cons]
    by_cases hk : p.1 = k
    · -- The key stands in front, so it does not stand behind once more.
      have hnone : l.find? (·.1 = k) = none := find?_eq_none_of_notMem (hk ▸ hd.1)
      cases hkeep : keep p.2 <;> simp [hnone, hk, hkeep, Option.filter]
    · cases hkeep : keep p.2 <;> simp [hk, lookup_insert]

/-- Looking for a key in the list of entries comes to looking it up. -/
theorem find?_toList (k : κ) : (m.toList.find? (·.1 = k)).map (·.2) = m[k]? := by
  ext a
  rw [Option.map_eq_some_iff]
  constructor
  · rintro ⟨⟨k', a'⟩, hfind, rfl⟩
    have hk : k' = k := by simpa using List.find?_some hfind
    exact hk ▸ Std.ExtTreeMap.mem_toList_iff_getElem?_eq_some.1 (List.mem_of_find?_eq_some hfind)
  · intro ha
    have hmem := Std.ExtTreeMap.mem_toList_iff_getElem?_eq_some.2 ha
    -- A pair with the key is found; that it has this value follows as the key has only one.
    obtain ⟨⟨k', a'⟩, hfind⟩ : ∃ p, m.toList.find? (·.1 = k) = some p :=
      Option.isSome_iff_exists.1 (List.find?_isSome.2 ⟨_, hmem, by simp⟩)
    have hk : k' = k := by simpa using List.find?_some hfind
    have ha' := Std.ExtTreeMap.mem_toList_iff_getElem?_eq_some.1 (List.mem_of_find?_eq_some hfind)
    rw [hk, ha] at ha'
    exact ⟨_, hfind, (Option.some.inj ha').symm⟩

/-- A map put together again from the pairs that are to be kept. -/
theorem gather_toList (keep : α → Bool) :
    gather ∅ keep m.toList = m.filter fun _ a => keep a := by
  have hd : (m.toList.map (·.1)).Nodup := by
    rw [Std.ExtTreeMap.map_fst_toList_eq_keys]
    exact nodup_keys m
  ext k a
  rw [lookup_gather _ keep hd, find?_toList, Std.ExtTreeMap.getElem?_filter']
  simp

end Maps

end DeltaForest
