import DeltaForest.Proofs.AnsweredReadings

/-!
# Slips

A fault is the answer to somebody who asks for what cannot be done. Two kinds of faults are not:
that a handle lies behind the end of the table of elements, and that a list is edited at a position
that it does not have. These are slips (`Fault.IsSlip`), and whatever a forest is asked for, it
should not come to one by itself.

An answer is safe if it is no slip (`Safe`). That is one way of saying which faults are allowed: all
ids may be asked for, and of the handles those that are issued. So a part of a message is answered
safely as soon as the handles on the nodes that are there lie within the table (`NodeTable.Issued`);
on the nodes that come with the message they do anyway.
-/

namespace DeltaForest

/-- A fault that answers nobody: a handle that was never issued, or a list that is edited where it
    has no position. -/
def Fault.IsSlip : Fault → Prop
  | .foreignHandle _ | .staleChange _ => True
  | _ => False

theorem Fault.IsPlain.not_isSlip : AllowsPlain fun fault => ¬fault.IsSlip := by
  intro fault hplain hslip
  cases fault
  case foreignHandle | staleChange => exact hplain
  all_goals exact hslip

/-- An answer that is no slip. -/
def Safe {α : Type} (x : Except Fault α) : Prop :=
  ∀ fault, x = .error fault → ¬fault.IsSlip

namespace Safe

variable {α β : Type} {x : Except Fault α} {f : α → Except Fault β} {fault : Fault} {l : List α}

theorem ok (a : α) : Safe (.ok a) := FailsOnly.ok a

theorem error (h : ¬fault.IsSlip) : Safe (.error fault : Except Fault α) := FailsOnly.error h

/-- Two steps are safe if the second one is wherever the first one gets to. -/
theorem bind (h : Safe x) (hf : ∀ a, x = .ok a → Safe (f a)) : Safe (x >>= f) :=
  FailsOnly.bind h hf

theorem ite {p : Prop} [Decidable p] {y : Except Fault α} (hx : p → Safe x) (hy : ¬p → Safe y) :
    Safe (if p then x else y) :=
  FailsOnly.ite hx hy

theorem mapM (h : ∀ a ∈ l, Safe (f a)) : Safe (l.mapM f) := FailsOnly.mapM h

end Safe

/-! ## Issued handles -/

/-- The handles that lead to a pointer are those within the table. -/
theorem TypeRegistry.safe_pointer_iff {r : TypeRegistry} {h : Handle} :
    Safe (r.pointer h) ↔ r.Issued h := by
  refine failsOnly_pointer_iff.trans (or_iff_left ?_)
  exact fun hallowed => hallowed trivial

/-- A node on which all handles lie within the table of elements. -/
def Node.Issued (types : TypeRegistry) (n : Node) : Prop := ∀ h ∈ n.handles, types.Issued h

namespace Node

variable {types : TypeRegistry} {n : Node}

theorem Issued.classifier (hn : n.Issued types) : types.Issued n.classifier :=
  hn _ List.mem_cons_self

/-- All handles on a node that conforms to its types are issued. -/
theorem Conforms.issued (hn : n.Conforms types) : n.Issued types := by
  intro h hmem
  rcases mem_handles.1 hmem with rfl | hp | hc | hr
  · obtain ⟨info, hinfo⟩ := hn.classifier
    exact TypeRegistry.issued_of_classifierAt hinfo
  · obtain ⟨v, hv⟩ := mem_iff_exists.1 hp
    obtain ⟨info, type, hinfo, -⟩ := hn.properties h v hv
    exact TypeRegistry.issued_of_featureAt hinfo
  · obtain ⟨ids, hids⟩ := mem_iff_exists.1 hc
    obtain ⟨info, hinfo, -⟩ := hn.containments h ids hids
    exact TypeRegistry.issued_of_featureAt hinfo
  · obtain ⟨es, hes⟩ := mem_iff_exists.1 hr
    obtain ⟨⟨info, hinfo, -⟩, -⟩ := hn.references h es hes
    exact TypeRegistry.issued_of_featureAt hinfo

end Node

namespace NodeTable

/-- A table of nodes on which all handles lie within the table of elements. -/
def Issued (types : TypeRegistry) (t : NodeTable) : Prop :=
  ∀ (k : NodeId) (n : Node), t[k]? = some n → n.Issued types

/-- All ids may be asked for. -/
theorem askable_of_safe (t : NodeTable) (id : NodeId) : t.Askable (fun fault => ¬fault.IsSlip) id :=
  .inr not_false

theorem safe_collect {t : NodeTable} {root : NodeId} : Safe (t.collect root) :=
  failsOnly_collect fun k _ => t.askable_of_safe k

end NodeTable

/-! ## Messages -/

/-- Where all handles on nodes are issued, safe answers may ask for whatever the nodes say. -/
theorem NodeTable.Issued.allows {m : Model} (hnodes : m.nodes.Issued m.types) :
    m.Allows fun fault => ¬fault.IsSlip where
  plain := Fault.IsPlain.not_isSlip
  handles k n hn h hmem := .inl (hnodes k n hn h hmem)
  above _ _ _ p _ := m.nodes.askable_of_safe p
  owned _ _ _ x _ := m.nodes.askable_of_safe x

namespace Protocol

variable {m : Model} (hl : m.types.Lawful) (hnodes : m.nodes.Issued m.types)

include hl hnodes

theorem CommandPart.safe_toRaised (participation : ParticipationId) (part : CommandPart) :
    Safe (part.toRaised participation m) := by
  refine .bind ?_ fun _ _ => .ok _
  exact Command.failsOnly_toChange hnodes.allows hl (fun id _ => m.nodes.askable_of_safe id)
    fun _ _ x _ => m.nodes.askable_of_safe x

theorem EventPart.safe_toRaised (part : EventPart) : Safe (part.toRaised m) := by
  refine .bind ?_ fun _ _ => .ok _
  exact Event.failsOnly_toChange hnodes.allows hl (fun id _ => m.nodes.askable_of_safe id)
    fun _ _ x _ => m.nodes.askable_of_safe x

end Protocol

end DeltaForest
