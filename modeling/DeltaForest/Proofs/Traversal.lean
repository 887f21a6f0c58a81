import DeltaForest.Proofs.Walk
import Mathlib.Algebra.GroupWithZero.Nat

/-!
# The walk as a loop

`NodeTable.depthFirst` can be carried out with a stack: the id on top is taken, it is passed over if
it has been met before, and otherwise it is met now, and what it owns is put on the stack, the last
one first (`Traversal.step?`). The stack may grow with every step. The loop ends all the same, on
whatever graph, and the number of its steps can be told beforehand: one for the root, and one for
each thing that an id on the list owns (`Traversal.run_start`).

The list says little about the graph if things are shared or owned in a circle. If below the root
everything has one owner, and the root has none, then it is the preorder of the tree that is there
(`NodeTable.Unfolds`): no other list is one.
-/

namespace DeltaForest

namespace NodeTable

variable {t rest : NodeTable} {visited stack : List NodeId} {a b k p q root : NodeId}

/-- What an id owns, which is nothing if it has no node. -/
def ownedBy (t : NodeTable) (k : NodeId) : List NodeId := (t[k]?.map Node.owned).getD []

theorem mem_ownedBy : k ∈ t.ownedBy p ↔ ∃ n, t[p]? = some n ∧ k ∈ n.owned := by
  cases hn : t[p]? <;> simp [ownedBy, hn]

/-! ## Step by step -/

/-- A walk that is under way: the ids met so far, in order and as a set, and those that are still to
    be looked at, the next one at the end. -/
structure Traversal where
  ordered : List NodeId
  visited : List NodeId
  stack : List NodeId
  deriving DecidableEq, Repr

namespace Traversal

/-- Nothing has been met. -/
def start (root : NodeId) : Traversal := ⟨[], [], [root]⟩

/-- Looks at the next id, if there is one. -/
def step? (t : NodeTable) (w : Traversal) : Option Traversal :=
  match w.stack.getLast? with
  | none => none
  | some id =>
    if id ∈ w.visited then some { w with stack := w.stack.dropLast }
    else some
      { ordered := w.ordered ++ [id]
        visited := id :: w.visited
        stack := w.stack.dropLast ++ (t.ownedBy id).reverse }

/-- The ids met at the end of a walk, if it ends within some steps. -/
def run (t : NodeTable) : Nat → Traversal → Option (List NodeId)
  | 0, w => if w.stack = [] then some w.ordered else none
  | steps + 1, w =>
    match w.step? t with
    | none => some w.ordered
    | some w => run t steps w

/-- How many steps are left: one for each id on the stack, and one for each that comes there. -/
def left (t : NodeTable) (stack met : List NodeId) : Nat :=
  stack.length + (met.map fun k => (t.ownedBy k).length).sum

theorem left_pos (met : List NodeId) : 0 < left t (k :: stack) met := by
  rw [left, List.length_cons]
  omega

/-- An id that is passed over takes one step. -/
theorem left_cons (met : List NodeId) : left t (k :: stack) met = left t stack met + 1 := by
  rw [left, left, List.length_cons, Nat.add_right_comm]

/-- An id that is met takes one step, and what it owns others. -/
theorem left_cons_cons (met : List NodeId) :
    left t (k :: stack) (k :: met) = left t (t.ownedBy k ++ stack) met + 1 := by
  rw [left, left, List.length_append, List.map_cons, List.sum_cons, List.length_cons]
  omega

variable {ordered : List NodeId}

theorem run_nil (steps : Nat) : run t steps ⟨ordered, visited, []⟩ = some ordered := by
  cases steps <;> rfl

/-- One step is made if there is something on the stack. -/
theorem run_cons (steps : Nat) : run t steps ⟨ordered, visited, (k :: stack).reverse⟩ =
    match steps with
    | 0 => none
    | steps + 1 =>
      if k ∈ visited then run t steps ⟨ordered, visited, stack.reverse⟩
      else run t steps
        ⟨ordered ++ [k], k :: visited, (t.ownedBy k ++ stack).reverse⟩ := by
  cases steps with
  | zero => simp [run]
  | succ steps =>
    simp only [run, step?, List.reverse_cons, List.getLast?_concat, List.dropLast_concat,
      List.reverse_append]
    by_cases hk : k ∈ visited <;> simp [hk]

/-- The walk that has no stack and takes the nodes that it has passed out of the table comes to the
    same ids. -/
theorem run_eq (hsame : ∀ k, k ∉ visited → rest[k]? = t[k]?) (steps : Nat) :
    run t steps ⟨ordered, visited, stack.reverse⟩ =
      if steps < left t stack (walk rest visited stack) then none
      else some (ordered ++ walk rest visited stack) := by
  -- The walk takes what it meets out of its table; the loop remembers it and keeps its table.
  fun_induction walk rest visited stack generalizing ordered steps with
  | case1 =>
    rw [List.reverse_nil, run_nil, List.append_nil]
    exact (if_neg (Nat.not_lt_zero steps)).symm
  | case2 rest visited id stack hid ih =>
    rw [run_cons]
    cases steps with
    | zero => exact (if_pos (left_pos _)).symm
    | succ steps => simp only [hid, if_true, ih hsame, left_cons, Nat.add_lt_add_iff_right]
  | case3 rest visited id stack hid n hn ih =>
    rw [run_cons]
    cases steps with
    | zero => exact (if_pos (left_pos _)).symm
    | succ steps =>
      have howned : t.ownedBy id = n.owned := by
        rw [ownedBy, ← hsame id hid, hn]
        rfl
      have hrest (k : NodeId) (hk : k ∉ id :: visited) : (rest.erase id)[k]? = t[k]? := by
        rw [List.mem_cons, not_or] at hk
        rw [lookup_erase, if_neg (Ne.symm hk.1), hsame k hk.2]
      simp only [hid, if_false, howned, ih hrest, left_cons_cons, Nat.add_lt_add_iff_right,
        List.append_assoc, List.singleton_append]
  | case4 rest visited id stack hid hn ih =>
    rw [run_cons]
    cases steps with
    | zero => exact (if_pos (left_pos _)).symm
    | succ steps =>
      have howned : t.ownedBy id = [] := by
        rw [ownedBy, ← hsame id hid, hn]
        rfl
      have hrest (k : NodeId) (hk : k ∉ id :: visited) : rest[k]? = t[k]? :=
        hsame k fun h => hk (List.mem_cons_of_mem _ h)
      simp only [hid, if_false, howned, List.nil_append, ih hrest, left_cons_cons,
        Nat.add_lt_add_iff_right, List.append_assoc, List.singleton_append]

/-- The loop ends on any graph, and after as many steps as can be told beforehand. -/
theorem run_start (t : NodeTable) (root : NodeId) (steps : Nat) : run t steps (start root) =
    if steps < 1 + ((t.depthFirst root).map fun k => (t.ownedBy k).length).sum then none
    else some (t.depthFirst root) :=
  @run_eq t t [] [root] [] (fun _ _ => rfl) steps

end Traversal

/-! ## Things with one owner -/

/-- Below a root no id is owned twice, and the root is not owned there at all. -/
structure OwnsOnce (t : NodeTable) (root : NodeId) : Prop where
  nodup : ∀ p, Under t root p → (t.ownedBy p).Nodup
  unique : ∀ p q k, Under t root p → Under t root q → k ∈ t.ownedBy p → k ∈ t.ownedBy q → p = q
  top : ∀ p, Under t root p → root ∉ t.ownedBy p

theorem Under.owned (h : Under t a p) (hk : k ∈ t.ownedBy p) : Under t a k := by
  obtain ⟨n, hn, hk⟩ := mem_ownedBy.1 hk
  exact h.step hn hk

/-- What is below an id is the id or owned by something below it. -/
theorem under_iff : Under t a k ↔ k = a ∨ ∃ p, Under t a p ∧ k ∈ t.ownedBy p := by
  constructor
  · rintro (_ | ⟨hp, hn, hk⟩)
    · exact .inl rfl
    · exact .inr ⟨_, hp, mem_ownedBy.2 ⟨_, hn, hk⟩⟩
  · rintro (rfl | ⟨p, hp, hk⟩)
    · exact .self
    · exact hp.owned hk

namespace OwnsOnce

variable (h : t.OwnsOnce root)

include h

/-- Nothing is owned in a circle. -/
theorem not_under_owner (hp : Under t root p) (hk : k ∈ t.ownedBy p) : ¬Under t k p := by
  -- By induction on the way down to the owner: a circle there would be one further up as well.
  induction hp generalizing k with
  | self =>
    intro hu
    rcases under_iff.1 hu with rfl | ⟨q, hq, hroot⟩
    · exact h.top _ .self hk
    · exact h.top q ((Under.self.owned hk).trans hq) hroot
  | @step q p n hq hn hp ih =>
    intro hu
    have hp : p ∈ t.ownedBy q := mem_ownedBy.2 ⟨n, hn, hp⟩
    refine ih hp ?_
    rcases under_iff.1 hu with rfl | ⟨q', hq', hp'⟩
    · obtain rfl := h.unique _ _ _ (hq.owned hp) hq hk hp
      exact .self
    · have hcircle : Under t p q' := (Under.self.owned hk).trans hq'
      obtain rfl := h.unique _ _ _ ((hq.owned hp).trans hcircle) hq hp' hp
      exact hcircle

/-- Of two ids above the same one, one is above the other. -/
theorem under_or_under (ha : Under t root a) (hb : Under t root b) (hak : Under t a k)
    (hbk : Under t b k) : Under t a b ∨ Under t b a := by
  induction hak with
  | self => exact .inr hbk
  | @step p k n hp hn hk ih =>
    have hk : k ∈ t.ownedBy p := mem_ownedBy.2 ⟨n, hn, hk⟩
    rcases under_iff.1 hbk with rfl | ⟨q, hq, hk'⟩
    · exact .inl (hp.owned hk)
    · obtain rfl := h.unique _ _ _ (ha.trans hp) (hb.trans hq) hk hk'
      exact ih hq

/-- What is below one thing is not below another one with the same owner. -/
theorem siblings_apart (hp : Under t root p) (ha : a ∈ t.ownedBy p) (hb : b ∈ t.ownedBy p)
    (hne : a ≠ b) (hak : Under t a k) : ¬Under t b k := by
  have hapart {a b : NodeId} (ha : a ∈ t.ownedBy p) (hb : b ∈ t.ownedBy p) (hne : a ≠ b) :
      ¬Under t a b := by
    intro hab
    rcases under_iff.1 hab with heq | ⟨q, hq, hbq⟩
    · exact hne heq.symm
    · obtain rfl := h.unique _ _ _ ((hp.owned ha).trans hq) hp hbq hb
      exact h.not_under_owner hp ha hq
  intro hbk
  rcases h.under_or_under (hp.owned ha) (hp.owned hb) hak hbk with hab | hba
  · exact hapart ha hb hne hab
  · exact hapart hb ha hne.symm hba

end OwnsOnce

/-! ## Preorder -/

/-- The preorders of some ids, one behind the other: the preorder of an id is the id itself, and
    then those of all that it owns. -/
inductive Unfolds (t : NodeTable) : List NodeId → List NodeId → Prop
  | nil : Unfolds t [] []
  | cons {k : NodeId} {stack below beside : List NodeId} : Unfolds t (t.ownedBy k) below →
    Unfolds t stack beside → Unfolds t (k :: stack) (k :: (below ++ beside))

theorem Unfolds.unique {order order' : List NodeId} (h : t.Unfolds stack order)
    (h' : t.Unfolds stack order') : order = order' := by
  induction h generalizing order' with
  | nil =>
    cases h'
    rfl
  | cons _ _ ihbelow ihbeside =>
    obtain _ | ⟨hbelow, hbeside⟩ := h'
    rw [ihbelow hbelow, ihbeside hbeside]

theorem Unfolds.exists_append {stack' order : List NodeId} (h : t.Unfolds (stack ++ stack') order) :
    ∃ first second, order = first ++ second ∧ t.Unfolds stack first ∧ t.Unfolds stack' second := by
  induction stack generalizing order with
  | nil => exact ⟨[], order, rfl, .nil, h⟩
  | cons k stack ih =>
    obtain _ | ⟨hbelow, hbeside⟩ := h
    obtain ⟨first, second, rfl, hfirst, hsecond⟩ := ih hbeside
    exact ⟨_, second, by rw [List.cons_append, List.append_assoc], .cons hbelow hfirst, hsecond⟩

/-- What a walk has in front of it is separate from each other, and it has touched nothing of it.
    The table `rest` holds what the walk has not passed. -/
structure Untouched (t rest : NodeTable) (root : NodeId) (visited stack : List NodeId) :
    Prop where
  below : ∀ s ∈ stack, Under t root s
  apart : stack.Pairwise fun a b => ∀ k, Under t a k → ¬Under t b k
  fresh : ∀ s ∈ stack, ∀ k, Under t s k → k ∉ visited
  same : ∀ k, k ∉ visited → rest[k]? = t[k]?

namespace Untouched

theorem start : t.Untouched t root [] [root] where
  below := List.forall_mem_singleton.2 .self
  apart := List.pairwise_singleton _ _
  fresh _ _ _ _ := List.not_mem_nil
  same _ _ := rfl

theorem notMem (h : t.Untouched rest root visited (k :: stack)) : k ∉ visited :=
  h.fresh k List.mem_cons_self k .self

theorem ownedBy_eq (h : t.Untouched rest root visited (k :: stack)) :
    t.ownedBy k = (rest[k]?.map Node.owned).getD [] := by
  rw [h.same k h.notMem, ownedBy]

/-- Once an id has been met, what it owns takes its place. -/
theorem step (honce : t.OwnsOnce root) (h : t.Untouched rest root visited (k :: stack))
    {rest' : NodeTable} (hrest : ∀ x, x ≠ k → rest'[x]? = rest[x]?) :
    t.Untouched rest' root (k :: visited) (t.ownedBy k ++ stack) where
  -- The node on top gives way to those it owns; they are below it and apart from each other.
  below s hs := by
    rcases List.mem_append.1 hs with hs | hs
    · exact (h.below k List.mem_cons_self).owned hs
    · exact h.below s (List.mem_cons_of_mem _ hs)
  apart := by
    have hk := h.below k List.mem_cons_self
    obtain ⟨hbeside, hstack⟩ := List.pairwise_cons.1 h.apart
    refine List.pairwise_append.2 ⟨?_, hstack, fun a ha b hb x hx => ?_⟩
    · exact (honce.nodup k hk).imp_of_mem fun ha hb hne x =>
        honce.siblings_apart hk ha hb hne
    · exact hbeside b hb x ((Under.self.owned ha).trans hx)
  fresh s hs x hx := by
    rw [List.mem_cons, not_or]
    rcases List.mem_append.1 hs with hs | hs
    · have hk := h.below k List.mem_cons_self
      refine ⟨?_, h.fresh k List.mem_cons_self x ((Under.self.owned hs).trans hx)⟩
      rintro rfl
      exact honce.not_under_owner hk hs hx
    · refine ⟨fun heq => ?_, h.fresh s (List.mem_cons_of_mem _ hs) x hx⟩
      exact (List.pairwise_cons.1 h.apart).1 s hs k .self (heq ▸ hx)
  same x hx := by
    obtain ⟨hne, hx⟩ := not_or.1 (mt List.mem_cons.2 hx)
    rw [hrest x hne, h.same x hx]

end Untouched

/-- A walk lists what it has in front of it in preorder. -/
theorem OwnsOnce.unfolds_walk (honce : t.OwnsOnce root) (h : t.Untouched rest root visited stack) :
    t.Unfolds stack (walk rest visited stack) := by
  -- Nothing on the stack has been met, so the second case never arises.
  fun_induction walk rest visited stack with
  | case1 => exact .nil
  | case2 _ _ _ _ hid => exact absurd hid h.notMem
  | case3 rest visited id stack hid n hn ih =>
    have howned : t.ownedBy id = n.owned := by
      rw [h.ownedBy_eq, hn]
      rfl
    have hnext : t.Untouched (rest.erase id) root (id :: visited) (n.owned ++ stack) :=
      howned ▸ h.step honce fun x hx => by rw [lookup_erase, if_neg (Ne.symm hx)]
    obtain ⟨below, beside, heq, hbelow, hbeside⟩ := (ih hnext).exists_append
    rw [heq]
    exact .cons (howned ▸ hbelow) hbeside
  | case4 rest visited id stack hid hn ih =>
    have howned : t.ownedBy id = [] := by
      rw [h.ownedBy_eq, hn]
      rfl
    have hnext : t.Untouched rest root (id :: visited) stack := by
      simpa [howned] using h.step honce fun _ _ => rfl
    have hbelow : t.Unfolds (t.ownedBy id) [] := by
      rw [howned]
      exact .nil
    exact .cons hbelow (ih hnext)

theorem OwnsOnce.unfolds_iff (honce : t.OwnsOnce root) {order : List NodeId} :
    t.Unfolds [root] order ↔ order = t.depthFirst root := by
  have hunfolds : t.Unfolds [root] (t.depthFirst root) := honce.unfolds_walk .start
  constructor
  · exact fun h => h.unique hunfolds
  · rintro rfl
    exact hunfolds

/-- The walk from a root through whatever graph a table holds: the loop ends, and the ids that it
    has met are those that can be reached by following owned nodes, each once and the root first.
    If everything has one owner there, they are in preorder. -/
theorem depthFirst_traverses (t : NodeTable) (root : NodeId) :
    (∀ steps, Traversal.run t steps (.start root) =
      if steps < 1 + ((t.depthFirst root).map fun k => (t.ownedBy k).length).sum then none
      else some (t.depthFirst root)) ∧
    (t.depthFirst root).head? = some root ∧ (t.depthFirst root).Nodup ∧
    (∀ k, k ∈ t.depthFirst root ↔ Under t root k) ∧
    (t.OwnsOnce root → ∀ order, t.Unfolds [root] order ↔ order = t.depthFirst root) := by
  refine ⟨Traversal.run_start t root, ?_, nodup_depthFirst, fun k => mem_depthFirst,
    fun honce order => honce.unfolds_iff⟩
  obtain ⟨rest, hrest⟩ := depthFirst_eq_cons t root
  rw [hrest]
  rfl

end NodeTable

/-! ## A house and a circle -/

namespace Examples

open NodeTable

/-- A house with a room, in which there is a bed, with a shed and a note that is nowhere; and
    something that owns the house twice, and itself. -/
def yard : NodeTable := .ofList
  [{ (Node.bare ⟨"house"⟩ ⟨0⟩).withChildren ⟨2⟩ [⟨"room"⟩, ⟨"shed"⟩] with
      annotations := [⟨"note"⟩] },
    (Node.bare ⟨"room"⟩ ⟨0⟩).withChildren ⟨2⟩ [⟨"bed"⟩], .bare ⟨"bed"⟩ ⟨0⟩, .bare ⟨"shed"⟩ ⟨0⟩,
    (Node.bare ⟨"ring"⟩ ⟨0⟩).withChildren ⟨2⟩ [⟨"house"⟩, ⟨"ring"⟩, ⟨"house"⟩]]

/-- What there is below the house, in preorder. -/
def premises : List NodeId := [⟨"house"⟩, ⟨"room"⟩, ⟨"bed"⟩, ⟨"shed"⟩, ⟨"note"⟩]

theorem ownsOnce_yard : yard.OwnsOnce ⟨"house"⟩ := by
  have hclosed : ∀ p ∈ premises, ∀ k ∈ yard.ownedBy p, k ∈ premises := by decide +kernel
  have hunder (p : NodeId) (hp : Under yard ⟨"house"⟩ p) : p ∈ premises := by
    induction hp with
    | self => exact List.mem_cons_self
    | step _ hn hk ih => exact hclosed _ ih _ (mem_ownedBy.2 ⟨_, hn, hk⟩)
  have hnodup : ∀ p ∈ premises, (yard.ownedBy p).Nodup := by decide +kernel
  have hunique : ∀ p ∈ premises, ∀ q ∈ premises, ∀ k ∈ yard.ownedBy p,
      k ∈ yard.ownedBy q → p = q := by decide +kernel
  have htop : ∀ p ∈ premises, (⟨"house"⟩ : NodeId) ∉ yard.ownedBy p := by decide +kernel
  exact ⟨fun p hp => hnodup p (hunder p hp),
    fun p q k hp hq => hunique p (hunder p hp) q (hunder q hq) k,
    fun p hp => htop p (hunder p hp)⟩

theorem unfolds_yard : yard.Unfolds [⟨"house"⟩] premises := by
  have hhouse : yard.ownedBy ⟨"house"⟩ = [⟨"room"⟩, ⟨"shed"⟩, ⟨"note"⟩] := by decide +kernel
  have hroom : yard.ownedBy ⟨"room"⟩ = [⟨"bed"⟩] := by decide +kernel
  have hleaf {k : NodeId} (hk : yard.ownedBy k = []) : yard.Unfolds (yard.ownedBy k) [] := by
    rw [hk]
    exact .nil
  have hbed : yard.Unfolds (yard.ownedBy ⟨"room"⟩) [⟨"bed"⟩] := by
    rw [hroom]
    exact .cons (hleaf (by decide +kernel)) .nil
  have hbelow : yard.Unfolds (yard.ownedBy ⟨"house"⟩) [⟨"room"⟩, ⟨"bed"⟩, ⟨"shed"⟩, ⟨"note"⟩] := by
    rw [hhouse]
    exact .cons hbed (.cons (hleaf (by decide +kernel)) (.cons (hleaf (by decide +kernel)) .nil))
  exact .cons hbelow .nil

/-- From the ring the loop takes eight steps, and from the house five. Only the latter are in
    preorder, since the former own the house twice. -/
theorem traverses_yard : yard.OwnsOnce ⟨"house"⟩ ∧ yard.depthFirst ⟨"house"⟩ = premises ∧
    Traversal.run yard 5 (.start ⟨"house"⟩) = some premises ∧
    Traversal.run yard 7 (.start ⟨"ring"⟩) = none ∧
    Traversal.run yard 8 (.start ⟨"ring"⟩) = some (⟨"ring"⟩ :: premises) := by
  obtain ⟨hends, -, -, -, hpreorder⟩ := depthFirst_traverses yard ⟨"house"⟩
  have heq : premises = yard.depthFirst ⟨"house"⟩ :=
    (hpreorder ownsOnce_yard premises).1 unfolds_yard
  refine ⟨ownsOnce_yard, heq.symm, ?_, by decide +kernel, by decide +kernel⟩
  rw [hends, ← heq]
  decide +kernel

end Examples

end DeltaForest
