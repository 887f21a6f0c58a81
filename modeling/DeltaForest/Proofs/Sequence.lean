import DeltaForest.Proofs.Standing
import DeltaForest.Site

/-!
# Changes one after the other

The parts of a message are planned and made one after the other, each in the state that the ones
before it have left. A part that can be planned can also be made, so a message is refused only
where one of its parts cannot be planned, and then the forest is as it was before the first of
them (`applyAll_error`). A message that is accepted makes of the forest what its changes make of it
in turn (`applyAll_eq_ok`).
-/

namespace DeltaForest

namespace Forest

variable {f f' : Forest} {c : Change} {cs : List Change}

/-- What changes make of a forest, one after the other. -/
def changedBy (f : Forest) (cs : List Change) : Forest := cs.foldl changed f

/-- Every one of some changes fits the state that the ones before it have left. -/
def Accepts (f : Forest) : List Change → Prop
  | [] => True
  | c :: cs => f.model.replan c = .ok c ∧ (f.changed c).Accepts cs

/-- All that some changes bring are trees. -/
def BringsTrees (cs : List Change) : Prop := ∀ c ∈ cs, ∀ tree ∈ c.incoming, tree.IsTree

@[simp] theorem types_changedBy : (f.changedBy cs).types = f.types := by
  induction cs generalizing f with
  | nil => rfl
  | cons c cs ih => exact ih

/-- Changes are made one after the other. -/
theorem changedBy_append (cs cs' : List Change) :
    f.changedBy (cs ++ cs') = (f.changedBy cs).changedBy cs' :=
  List.foldl_append

/-- Changes are accepted one after the other. -/
theorem accepts_append {cs cs' : List Change} :
    f.Accepts (cs ++ cs') ↔ f.Accepts cs ∧ (f.changedBy cs).Accepts cs' := by
  induction cs generalizing f with
  | nil => exact (iff_of_eq (true_and _)).symm
  | cons c cs ih => exact (and_congr_right fun _ => ih).trans and_assoc.symm

/-- Changes that are accepted one after the other keep a forest well-formed. -/
theorem WellFormed.changedBy (h : f.WellFormed) (ha : f.Accepts cs) (htree : BringsTrees cs) :
    (f.changedBy cs).WellFormed := by
  induction cs generalizing f with
  | nil => exact h
  | cons c cs ih =>
    obtain ⟨hc, hcs⟩ := ha
    obtain ⟨hfirst, hrest⟩ := List.forall_mem_cons.1 htree
    exact ih (h.changed (Model.fits_of_replan hc) hfirst) hcs hrest

end Forest

/-! ## Messages -/

/-- A way to understand parts of messages: what they amount to is planned, and what they bring are
    trees. -/
structure Reads {α : Type} (toRaised : Model → α → Except Fault Raised) : Prop where
  planned : ∀ {m part raised}, toRaised m part = .ok raised →
    ∃ e, m.plan e = .ok raised.change ∧ ∀ tree ∈ e.incoming, tree.IsTree

namespace Forest.Action

variable {α : Type} {toRaised : Model → α → Except Fault Raised} {f f' : Forest} {part : α}
  {parts : List α} {raised : Raised} {all : List Raised} {fault : Fault}

/-- What has just been planned is made if the edit brings trees. -/
theorem apply_of_plan {e : Edit} {c : Change} (h : f.WellFormed) (hplan : f.model.plan e = .ok c)
    (htree : ∀ tree ∈ e.incoming, tree.IsTree) :
    f.model.replan c = .ok c ∧ (∀ tree ∈ c.incoming, tree.IsTree) ∧
      apply c f = .ok () (f.changed c) := by
  have hreplan := Model.replan_of_plan h.treelike.keyed hplan
  rw [← Model.incoming_of_plan h.treelike.keyed hplan] at htree
  exact ⟨hreplan, htree, (apply_eq_ok h.treelike htree).2 ⟨hreplan, rfl⟩⟩

/-- A part that is understood is made. -/
theorem apply_of_reads (hr : Reads toRaised) (h : f.WellFormed)
    (hpart : toRaised f.model part = .ok raised) :
    f.model.replan raised.change = .ok raised.change ∧
      (∀ tree ∈ raised.change.incoming, tree.IsTree) ∧
      apply raised.change f = .ok () (f.changed raised.change) := by
  obtain ⟨e, he, htree⟩ := hr.planned hpart
  exact apply_of_plan h he htree

/-- If the first part can be made, the others are made in what has become of the forest. -/
theorem applyParts_cons_of_ok (hr : Reads toRaised) (h : f.WellFormed)
    (hpart : toRaised f.model part = .ok raised) :
    applyParts toRaised (part :: parts) f =
      match applyParts toRaised parts (f.changed raised.change) with
      | .ok all f' => .ok (raised :: all) f'
      | .error fault f' => .error fault f' := by
  have happly := (apply_of_reads hr h hpart).2.2
  simp only [applyParts, ask, hpart, happly, bind, EStateM.bind]
  cases applyParts toRaised parts (f.changed raised.change) <;> rfl

/-- If the first part cannot be understood, nothing has happened. -/
theorem applyParts_cons_of_error (hpart : toRaised f.model part = .error fault) :
    applyParts toRaised (part :: parts) f = .error fault f := by
  simp [applyParts, ask, hpart, bind, EStateM.bind]

/-- Parts that are all made. -/
theorem applyParts_eq_ok (hr : Reads toRaised) (h : f.WellFormed)
    (hall : applyParts toRaised parts f = .ok all f') :
    f.Accepts (all.map (·.change)) ∧ BringsTrees (all.map (·.change)) ∧
      f' = f.changedBy (all.map (·.change)) := by
  -- Each part is read in the forest that the parts in front of it have left.
  induction parts generalizing f all with
  | nil =>
    cases hall
    exact ⟨trivial, List.forall_mem_nil _, rfl⟩
  | cons part parts ih =>
    cases hpart : toRaised f.model part with
    | error fault => rw [applyParts_cons_of_error hpart] at hall; cases hall
    | ok raised =>
      obtain ⟨hreplan, htree, happly⟩ := apply_of_reads hr h hpart
      rw [applyParts_cons_of_ok hr h hpart] at hall
      split at hall
      · next rest f'' hrest =>
        cases hall
        obtain ⟨ha, htrees, rfl⟩ :=
          ih (h.changed (Model.fits_of_replan hreplan) htree) hrest
        exact ⟨⟨hreplan, ha⟩, List.forall_mem_cons.2 ⟨htree, htrees⟩, rfl⟩
      · cases hall

/-- Where a part is not understood, nothing but nodes and partitions has become different. -/
theorem applyParts_error (hr : Reads toRaised) (h : f.WellFormed)
    (hall : applyParts toRaised parts f = .error fault f') :
    (f'.types = f.types ∧ f'.nextLocal = f.nextLocal) ∧ (parts.length ≤ 1 → f' = f) := by
  induction parts generalizing f with
  | nil => cases hall
  | cons part parts ih =>
    cases hpart : toRaised f.model part with
    | error fault =>
      rw [applyParts_cons_of_error hpart] at hall
      cases hall
      exact ⟨⟨rfl, rfl⟩, fun _ => rfl⟩
    | ok raised =>
      obtain ⟨hreplan, htree, happly⟩ := apply_of_reads hr h hpart
      rw [applyParts_cons_of_ok hr h hpart] at hall
      split at hall
      · cases hall
      · next fault' f'' hrest =>
        cases hall
        refine ⟨(ih (h.changed (Model.fits_of_replan hreplan) htree) hrest).1, fun hlen => ?_⟩
        -- Behind the only part there is none that could fail.
        rw [List.length_eq_zero_iff.1 (Nat.le_zero.1 (Nat.le_of_succ_le_succ hlen))] at hrest
        cases hrest

/-- A single part that is understood is made. -/
theorem applyAll_singleton_of_ok (hr : Reads toRaised) (h : f.WellFormed)
    (hpart : toRaised f.model part = .ok raised) :
    applyAll toRaised [part] f = .ok [raised] (f.changed raised.change) := by
  rw [applyAll, applyParts_cons_of_ok hr h hpart]
  rfl

theorem applyAll_singleton_of_error (hpart : toRaised f.model part = .error fault) :
    applyAll toRaised [part] f = .error fault f := by
  rw [applyAll, applyParts_cons_of_error hpart]
  rfl

/-- A message that is accepted. -/
theorem applyAll_eq_ok (hr : Reads toRaised) (h : f.WellFormed)
    (hall : applyAll toRaised parts f = .ok all f') :
    f.Accepts (all.map (·.change)) ∧ BringsTrees (all.map (·.change)) ∧
      f' = f.changedBy (all.map (·.change)) := by
  rw [applyAll] at hall
  split at hall
  · next hparts =>
    cases hall
    exact applyParts_eq_ok hr h hparts
  · cases hall

/-- A message that is refused leaves the forest alone. -/
theorem applyAll_error (hr : Reads toRaised) (h : f.WellFormed)
    (hall : applyAll toRaised parts f = .error fault f') : f' = f := by
  rw [applyAll] at hall
  split at hall
  · cases hall
  · next f'' hparts =>
    cases hall
    obtain ⟨⟨htypes, hnext⟩, hsame⟩ := applyParts_error hr h hparts
    split
    · rw [restore, htypes, hnext]
      rfl
    · next hlen => exact hsame (Nat.le_of_not_lt hlen)

/-- Receiving all parts of a message comes to what making them in a row does, but goes back if that
    fails. -/
theorem applyAll_eq (hr : Reads toRaised) (h : f.WellFormed) (parts : List α) :
    applyAll toRaised parts f = match applyParts toRaised parts f with
      | .ok all f' => .ok all f'
      | .error fault _ => .error fault f := by
  cases hparts : applyParts toRaised parts f with
  | ok all f' => rw [applyAll, hparts]
  | error fault f' =>
    obtain ⟨f'', hall⟩ : ∃ f'', applyAll toRaised parts f = .error fault f'' := by
      rw [applyAll, hparts]
      exact ⟨_, rfl⟩
    obtain rfl := applyAll_error hr h hall
    exact hall

end Forest.Action

/-! ## What is read of commands and events -/

/-- A chunk can be read if its items can, the nodes that they are read as are new, all that they
    refer to is among them or known, and they are a tree. -/
theorem Chunk.toSubtree_eq_ok {chunk : Chunk} {types : TypeRegistry} {known : NodeTable}
    {tree : Subtree} : chunk.toSubtree types known = .ok tree ↔
      ∃ nodes, chunk.items.mapM (Item.toNode types) = .ok nodes ∧ (∀ n ∈ nodes, n.id ∉ known) ∧
        (∀ n ∈ nodes, ∀ x ∈ n.targets, x ∈ nodes.map Node.id ∨ x ∈ known) ∧
        Subtree.ofList nodes = .ok tree := by
  -- The searches for a fault find nothing just if there is none.
  have hfree (nodes : List Node) : nodes.find? (fun n => known.contains n.id) = none ↔
      ∀ n ∈ nodes, n.id ∉ known := by
    simp [List.find?_eq_none]
  have hsupplied (nodes : List Node) : (nodes.flatMap Node.targets).find?
      (fun t => t ∉ nodes.map Node.id && !known.contains t) = none ↔
        ∀ n ∈ nodes, ∀ x ∈ n.targets, x ∈ nodes.map Node.id ∨ x ∈ known := by
    rw [List.find?_eq_none, List.forall_mem_flatMap]
    simp [Decidable.or_iff_not_imp_left]
  constructor
  · intro h
    obtain ⟨-, h⟩ := guard_eq_ok.1 h
    obtain ⟨nodes, hnodes, h⟩ := bind_eq_ok.1 h
    refine ⟨nodes, hnodes, ?_⟩
    split at h
    · cases h
    next hvacant =>
    dsimp only at h
    split at h
    · cases h
    next htargets => exact ⟨(hfree _).1 hvacant, (hsupplied _).1 htargets, h⟩
  · rintro ⟨nodes, hnodes, hvacant, htargets, h⟩
    refine guard_eq_ok.2 ⟨fun hempty => ?_, bind_eq_ok.2 ⟨nodes, hnodes, ?_⟩⟩
    · rw [List.isEmpty_iff.1 hempty] at hnodes
      cases hnodes
      cases h
    · simp only [(hfree _).2 hvacant, (hsupplied _).2 htargets, h]

/-- What is read from a chunk is put together from the nodes that its items are read as. -/
theorem Chunk.exists_nodes_of_toSubtree {chunk : Chunk} {types : TypeRegistry} {known : NodeTable}
    {tree : Subtree} (h : chunk.toSubtree types known = .ok tree) :
    ∃ nodes, chunk.items.mapM (Item.toNode types) = .ok nodes ∧
      Subtree.ofList nodes = .ok tree :=
  let ⟨nodes, hnodes, _, _, hlist⟩ := toSubtree_eq_ok.1 h
  ⟨nodes, hnodes, hlist⟩

/-- What has travelled is a tree again. -/
theorem Chunk.isTree_toSubtree {chunk : Chunk} {types : TypeRegistry} {known : NodeTable}
    {tree : Subtree} (h : chunk.toSubtree types known = .ok tree) : tree.IsTree :=
  let ⟨_, _, hlist⟩ := exists_nodes_of_toSubtree h
  Subtree.isTree_ofList hlist

namespace Protocol

variable {m : Model} {e : Edit} {tree : Subtree}

theorem isTree_of_resolveChunk {chunk : Chunk} (h : m.resolveChunk chunk = .ok tree) :
    tree.IsTree :=
  Chunk.isTree_toSubtree h

/-- A change is let through if it is of the kind that the message names. -/
theorem checkKind_eq_ok {c c' : Change} {named : String} :
    c.checkKind named = .ok c' ↔ c.kind = named ∧ c = c' := by
  rw [Change.checkKind]
  split <;> simp_all

/-- What a command brings has been read from a chunk. -/
theorem Command.exists_chunk_of_toEdit {c : Command} (h : c.toEdit m = .ok e) :
    ∀ tree ∈ e.incoming, ∃ chunk, m.resolveChunk chunk = .ok tree := by
  -- A subtree comes from a chunk, and most commands have none.
  cases c <;> simp only [toEdit, bind_eq_ok, pure_eq_ok, Except.ok.injEq, Prod.exists] at h
  case addPartition | addAnnotation | replaceAnnotation =>
    obtain ⟨tree, htree, rfl⟩ := h
    exact List.forall_mem_singleton.2 ⟨_, htree⟩
  case addChild | replaceChild =>
    obtain ⟨_, _, tree, htree, rfl⟩ := h
    exact List.forall_mem_singleton.2 ⟨_, htree⟩
  case deletePartition | deleteAnnotation =>
    subst h
    exact List.forall_mem_nil _
  case addProperty | changeProperty =>
    obtain ⟨_, _, _, rfl⟩ := h
    exact List.forall_mem_nil _
  case addEntry | changeEntry =>
    obtain ⟨_, _, _, _, rfl⟩ := h
    exact List.forall_mem_nil _
  all_goals
    obtain ⟨_, _, rfl⟩ := h
    exact List.forall_mem_nil _

/-- What an event brings has been read from a chunk. -/
theorem Event.exists_chunk_of_toEdit {event : Event} (h : event.toEdit m = .ok e) :
    ∀ tree ∈ e.incoming, ∃ chunk, m.resolveChunk chunk = .ok tree := by
  -- A subtree comes from a chunk, and most events have none.
  cases event <;> simp only [toEdit, bind_eq_ok, pure_eq_ok, Except.ok.injEq, Prod.exists] at h
  case partitionAdded | annotationAdded | annotationReplaced =>
    obtain ⟨tree, htree, rfl⟩ := h
    exact List.forall_mem_singleton.2 ⟨_, htree⟩
  case childAdded | childReplaced =>
    obtain ⟨_, _, tree, htree, rfl⟩ := h
    exact List.forall_mem_singleton.2 ⟨_, htree⟩
  case partitionDeleted | annotationDeleted | annotationMoved | annotationMovedAndReplaced =>
    subst h
    exact List.forall_mem_nil _
  case propertyAdded | propertyChanged =>
    obtain ⟨_, _, _, rfl⟩ := h
    exact List.forall_mem_nil _
  case entryAdded | entryChanged =>
    obtain ⟨_, _, _, _, rfl⟩ := h
    exact List.forall_mem_nil _
  all_goals
    obtain ⟨_, _, rfl⟩ := h
    exact List.forall_mem_nil _

/-- What comes along with a command is a tree, as it has been read from a chunk. -/
theorem Command.isTree_of_toEdit {c : Command} (h : c.toEdit m = .ok e) :
    ∀ tree ∈ e.incoming, tree.IsTree := fun tree htree =>
  let ⟨_, hchunk⟩ := exists_chunk_of_toEdit h tree htree
  isTree_of_resolveChunk hchunk

/-- What comes along with an event is a tree, as it has been read from a chunk. -/
theorem Event.isTree_of_toEdit {event : Event} (h : event.toEdit m = .ok e) :
    ∀ tree ∈ e.incoming, tree.IsTree := fun tree htree =>
  let ⟨_, hchunk⟩ := exists_chunk_of_toEdit h tree htree
  isTree_of_resolveChunk hchunk

/-- A command is understood as the plan of the edit that it asks for, if that is of its kind. -/
theorem Command.toChange_eq_ok {command : Command} {c : Change} :
    command.toChange m = .ok c ↔
      ∃ e, command.toEdit m = .ok e ∧ m.plan e = .ok c ∧ c.kind = command.changeKind := by
  simp only [Command.toChange, bind_eq_ok, checkKind_eq_ok]
  constructor
  · rintro ⟨e, he, c', hc, hkind, rfl⟩
    exact ⟨e, he, hc, hkind⟩
  · rintro ⟨e, he, hc, hkind⟩
    exact ⟨e, he, c, hc, hkind, rfl⟩

/-- An event is understood as the plan of the edit that it tells of, if that is of its kind. -/
theorem Event.toChange_eq_ok {event : Event} {c : Change} :
    event.toChange m = .ok c ↔
      ∃ e, event.toEdit m = .ok e ∧ m.plan e = .ok c ∧ c.kind = event.kind := by
  simp only [Event.toChange, bind_eq_ok, checkKind_eq_ok]
  constructor
  · rintro ⟨e, he, c', hc, hkind, rfl⟩
    exact ⟨e, he, hc, hkind⟩
  · rintro ⟨e, he, hc, hkind⟩
    exact ⟨e, he, c, hc, hkind, rfl⟩

/-- The change that a command asks for has the command as its origin. -/
theorem CommandPart.toRaised_eq_ok {participation : ParticipationId} {part : CommandPart}
    {raised : Raised} : part.toRaised participation m = .ok raised ↔
      ∃ c, part.command.toChange m = .ok c ∧
        ⟨.commands [⟨participation, part.id⟩], c⟩ = raised := by
  simp only [CommandPart.toRaised, bind_eq_ok, pure_eq_ok, Except.ok.injEq]

/-- The change that an event tells of has the origins that the event names. -/
theorem EventPart.toRaised_eq_ok {part : EventPart} {raised : Raised} :
    part.toRaised m = .ok raised ↔
      ∃ c, part.event.toChange m = .ok c ∧ ⟨.commands part.origins, c⟩ = raised := by
  simp only [EventPart.toRaised, bind_eq_ok, pure_eq_ok, Except.ok.injEq]

/-- A command is understood as a change that is fresh and brings trees. -/
theorem reads_commands (participation : ParticipationId) :
    Reads (CommandPart.toRaised participation) where
  planned h := by
    obtain ⟨c, hc, rfl⟩ := CommandPart.toRaised_eq_ok.1 h
    obtain ⟨e, he, hplan, -⟩ := Command.toChange_eq_ok.1 hc
    exact ⟨e, hplan, Command.isTree_of_toEdit he⟩

/-- An event is understood as a change that is fresh and brings trees. -/
theorem reads_events : Reads EventPart.toRaised where
  planned h := by
    obtain ⟨c, hc, rfl⟩ := EventPart.toRaised_eq_ok.1 h
    obtain ⟨e, he, hplan, -⟩ := Event.toChange_eq_ok.1 hc
    exact ⟨e, hplan, Event.isTree_of_toEdit he⟩

end Protocol

end DeltaForest
