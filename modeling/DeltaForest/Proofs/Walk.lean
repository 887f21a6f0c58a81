import DeltaForest.Proofs.Climb

/-!
# Walking downwards

`NodeTable.depthFirst` lists the ids below a root. Whatever graph a table holds, the list has no
repetitions (`nodup_depthFirst`) and consists of the ids that can be reached by following owned
nodes (`mem_depthFirst`). It depends on nothing but what the nodes on it own
(`depthFirst_congr`).
-/

namespace DeltaForest

namespace NodeTable

/-- Following owned nodes from `a` one comes to `k`. -/
inductive Under (t : NodeTable) (a : NodeId) : NodeId → Prop
  | self : Under t a a
  | step {p k : NodeId} {n : Node} : Under t a p → t[p]? = some n → k ∈ n.owned → Under t a k

variable {t t' : NodeTable} {visited stack : List NodeId} {a k : NodeId}

theorem Under.trans {b : NodeId} (h : Under t a b) (h' : Under t b k) : Under t a k := by
  induction h' with
  | self => exact h
  | step _ hn hk ih => exact .step ih hn hk

theorem Under.mono (hsub : ∀ (k : NodeId) (n : Node), t[k]? = some n → t'[k]? = some n)
    (h : Under t a k) : Under t' a k := by
  induction h with
  | self => exact .self
  | step _ hn hk ih => exact .step ih (hsub _ _ hn) hk

/-! ## The walk -/

theorem notMem_visited_of_mem_walk (h : k ∈ walk t visited stack) : k ∉ visited := by
  fun_induction walk t visited stack with
  | case1 => simp at h
  | case2 _ _ _ _ _ ih => exact ih h
  | case3 t visited id rest hid n hn ih =>
    rcases List.mem_cons.1 h with rfl | h
    · exact hid
    · exact fun hk => ih h (List.mem_cons_of_mem _ hk)
  | case4 t visited id rest hid hn ih =>
    rcases List.mem_cons.1 h with rfl | h
    · exact hid
    · exact fun hk => ih h (List.mem_cons_of_mem _ hk)

theorem nodup_walk : (walk t visited stack).Nodup := by
  fun_induction walk t visited stack with
  | case1 => exact List.nodup_nil
  | case2 _ _ _ _ _ ih => exact ih
  | case3 t visited id rest hid n hn ih =>
    exact List.nodup_cons.2 ⟨fun h => notMem_visited_of_mem_walk h List.mem_cons_self, ih⟩
  | case4 t visited id rest hid hn ih =>
    exact List.nodup_cons.2 ⟨fun h => notMem_visited_of_mem_walk h List.mem_cons_self, ih⟩

/-- What is in front of a walk is met, unless it was met before. -/
theorem mem_walk_of_mem_stack (h : k ∈ stack) (hv : k ∉ visited) : k ∈ walk t visited stack := by
  -- What is on the stack is met now or stays on the stack.
  fun_induction walk t visited stack with
  | case1 => simp at h
  | case2 t visited id rest hid ih =>
    rcases List.mem_cons.1 h with rfl | h
    · exact absurd hid hv
    · exact ih h hv
  | case3 t visited id rest hid n hn ih =>
    by_cases hk : k = id
    · exact hk ▸ List.mem_cons_self
    · refine List.mem_cons_of_mem _ (ih ?_ (by simp [hk, hv]))
      exact List.mem_append_right _ ((List.mem_cons.1 h).resolve_left hk)
  | case4 t visited id rest hid hn ih =>
    by_cases hk : k = id
    · exact hk ▸ List.mem_cons_self
    · exact List.mem_cons_of_mem _ (ih ((List.mem_cons.1 h).resolve_left hk) (by simp [hk, hv]))

/-- What a node on a walk owns is met too. -/
theorem mem_walk_of_owned {p : NodeId} {n : Node} (h : p ∈ walk t visited stack)
    (hn : t[p]? = some n) (hk : k ∈ n.owned) (hv : k ∉ visited) : k ∈ walk t visited stack := by
  fun_induction walk t visited stack with
  | case1 => simp at h
  | case2 _ _ _ _ _ ih => exact ih h hn hv
  | case3 t visited id rest hid m hm ih =>
    by_cases hki : k = id
    · exact hki ▸ List.mem_cons_self
    refine List.mem_cons_of_mem _ ?_
    -- What the node that is met now owns is put in front of the rest.
    by_cases hp : p = id
    · obtain rfl : n = m := Option.some.inj (hn.symm.trans (hp ▸ hm))
      exact mem_walk_of_mem_stack (List.mem_append_left _ hk) (by simp [hki, hv])
    · refine ih ((List.mem_cons.1 h).resolve_left hp) ?_ (by simp [hki, hv])
      rwa [lookup_erase, if_neg (Ne.symm hp)]
  | case4 t visited id rest hid hm ih =>
    by_cases hki : k = id
    · exact hki ▸ List.mem_cons_self
    -- An id that is not in the table owns nothing.
    have hp : p ≠ id := by
      rintro rfl
      simp [hm] at hn
    exact List.mem_cons_of_mem _ (ih ((List.mem_cons.1 h).resolve_left hp) hn (by simp [hki, hv]))

/-- A walk meets nothing that cannot be reached from what is in front of it. -/
theorem under_of_mem_walk (h : k ∈ walk t visited stack) : ∃ s ∈ stack, Under t s k := by
  fun_induction walk t visited stack with
  | case1 => simp at h
  | case2 t visited id rest hid ih =>
    obtain ⟨s, hs, hu⟩ := ih h
    exact ⟨s, List.mem_cons_of_mem _ hs, hu⟩
  | case3 t visited id rest hid n hn ih =>
    rcases List.mem_cons.1 h with rfl | h
    · exact ⟨_, List.mem_cons_self, .self⟩
    obtain ⟨s, hs, hu⟩ := ih h
    -- The walk goes on in a smaller table; what is below something there is so in this one.
    have hu : Under t s k := hu.mono fun y m hm => by
      rw [lookup_erase] at hm
      split at hm
      · simp at hm
      · exact hm
    rcases List.mem_append.1 hs with hs | hs
    · exact ⟨id, List.mem_cons_self, (Under.step .self hn hs).trans hu⟩
    · exact ⟨s, List.mem_cons_of_mem _ hs, hu⟩
  | case4 t visited id rest hid hn ih =>
    rcases List.mem_cons.1 h with rfl | h
    · exact ⟨_, List.mem_cons_self, .self⟩
    obtain ⟨s, hs, hu⟩ := ih h
    exact ⟨s, List.mem_cons_of_mem _ hs, hu⟩

/-- A walk looks at nothing but what the nodes that it meets own. -/
theorem walk_congr
    (h : ∀ k ∈ walk t visited stack, t'[k]?.map Node.owned = t[k]?.map Node.owned) :
    walk t' visited stack = walk t visited stack := by
  fun_induction walk t visited stack generalizing t' with
  | case1 => rw [walk]
  | case2 t visited id rest hid ih =>
    rw [walk, if_pos hid]
    exact ih h
  | case3 t visited id rest hid n hn ih =>
    -- The other table has a node there as well, which owns the same.
    have hid' := h id List.mem_cons_self
    obtain ⟨n', hn', ho⟩ : ∃ n', t'[id]? = some n' ∧ n'.owned = n.owned := by
      simpa [hn] using hid'
    rw [walk, if_neg hid]
    split
    · next m hm =>
      obtain rfl := Option.some.inj (hm.symm.trans hn')
      rw [ho, ih fun k hk => ?_]
      simp only [lookup_erase]
      split
      · rfl
      · exact h k (List.mem_cons_of_mem _ hk)
    · next hm => simp [hn'] at hm
  | case4 t visited id rest hid hn ih =>
    have hid' := h id List.mem_cons_self
    rw [hn, Option.map_none, Option.map_eq_none_iff] at hid'
    rw [walk, if_neg hid]
    split
    · next m hm => simp [hid'] at hm
    · rw [ih fun k hk => h k (List.mem_cons_of_mem _ hk)]

/-! ## From a root -/

variable {root : NodeId}

theorem nodup_depthFirst : (t.depthFirst root).Nodup := nodup_walk

theorem mem_depthFirst : k ∈ t.depthFirst root ↔ Under t root k := by
  constructor
  · intro h
    obtain ⟨s, hs, hu⟩ := under_of_mem_walk h
    exact List.mem_singleton.1 hs ▸ hu
  · intro h
    induction h with
    | self => exact mem_walk_of_mem_stack List.mem_cons_self List.not_mem_nil
    | step _ hn hk ih => exact mem_walk_of_owned ih hn hk List.not_mem_nil

/-- The root comes first. -/
theorem depthFirst_eq_cons (t : NodeTable) (root : NodeId) :
    ∃ rest, t.depthFirst root = root :: rest := by
  rw [depthFirst, walk, if_neg List.not_mem_nil]
  split
  · exact ⟨_, rfl⟩
  · exact ⟨_, rfl⟩

theorem depthFirst_congr
    (h : ∀ k ∈ t.depthFirst root, t'[k]?.map Node.owned = t[k]?.map Node.owned) :
    t'.depthFirst root = t.depthFirst root := walk_congr h

/-- What is left after a node has been erased was there before. -/
theorem forall_erase {P : Node → Prop} {k k' : NodeId} (h : ∀ n ∈ t[k']?, P n) :
    ∀ n ∈ (t.erase k)[k']?, P n := by
  intro n hn
  rw [Option.mem_def, lookup_erase] at hn
  split at hn
  · cases hn
  · exact h n hn

/-- A walk over nodes that own nothing takes one after the other. -/
theorem walk_of_leaves {visited stack : List NodeId} (hd : stack.Nodup)
    (hfresh : ∀ k ∈ stack, k ∉ visited) (hleaf : ∀ k ∈ stack, ∀ n ∈ t[k]?, n.owned = []) :
    walk t visited stack = stack := by
  -- A leaf puts nothing on the stack, so the stack is walked as it stands.
  induction stack generalizing t visited with
  | nil => rw [walk]
  | cons k rest ih =>
    obtain ⟨hk, hd⟩ := List.nodup_cons.1 hd
    obtain ⟨hknew, hfresh⟩ := List.forall_mem_cons.1 hfresh
    obtain ⟨hkleaf, hleaf⟩ := List.forall_mem_cons.1 hleaf
    have hfresh' : ∀ k' ∈ rest, k' ∉ k :: visited := fun k' hk' hmem =>
      (List.mem_cons.1 hmem).elim (fun heq => hk (heq ▸ hk')) (hfresh k' hk')
    rw [walk, if_neg hknew]
    split
    · next n hn =>
      rw [hkleaf n hn, List.nil_append,
        ih hd hfresh' fun k' hk' => forall_erase (hleaf k' hk')]
    · rw [ih hd hfresh' hleaf]

/-- Below a node that owns only nodes that own nothing there are those. -/
theorem depthFirst_of_leaves {n : Node} (hn : t[root]? = some n) (hd : (root :: n.owned).Nodup)
    (hleaf : ∀ k ∈ n.owned, ∀ n' ∈ t[k]?, n'.owned = []) :
    t.depthFirst root = root :: n.owned := by
  obtain ⟨hroot, hd⟩ := List.nodup_cons.1 hd
  rw [depthFirst, walk, if_neg List.not_mem_nil]
  split
  · next m hm =>
    obtain rfl := Option.some.inj (hm.symm.trans hn)
    have hfresh : ∀ k ∈ m.owned, k ∉ [root] := fun k hk hmem =>
      hroot (List.mem_singleton.1 hmem ▸ hk)
    rw [List.append_nil, walk_of_leaves hd hfresh fun k hk => forall_erase (hleaf k hk)]
  · next hm => simp [hm] at hn

/-- Below a node that owns nothing there is nothing else. -/
theorem depthFirst_of_leaf {n : Node} (hn : t[root]? = some n) (h : n.owned = []) :
    t.depthFirst root = [root] := by
  rw [depthFirst_of_leaves hn] <;> simp [h]

end NodeTable

end DeltaForest
