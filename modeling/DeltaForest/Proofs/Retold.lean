import DeltaForest.Proofs.Canonical
import DeltaForest.Proofs.Fresh
import DeltaForest.Proofs.Spelling

/-!
# Commands told again

A command can say the same in many ways: the nodes of a chunk may stand in any order, its links are
not read, lists without anything in them may or may not be there, and integers can be spelled
freely. Whoever understands a command as a change can tell the change as a command again, and that
is the first command but for its chunk and the text of its value (`Command.ofChange_of_toChange`).

The command told again is a normal form (`Site.Reachable.retells`): it is of the same kind and
understood as the same change, and a command without a chunk is its own normal form exactly if an
integer in it is spelled canonically.
-/

namespace DeltaForest

open Protocol

/-! ## What is read from a chunk is packed -/

/-- The links in a chunk are not read. -/
theorem Chunk.parent_toNode {types : TypeRegistry} {n : Node} {item : Item}
    (h : item.toNode types = .ok n) : n.parent = none :=
  of_toNode (P := (·.parent = none)) (fun _ _ => rfl) (fun _ _ _ hn => hn) (fun _ _ _ _ hn => hn)
    (fun _ _ _ _ hn => hn) (fun _ _ hn => hn) h

/-- The root of a subtree keeps the link that it came with. -/
theorem Subtree.exists_root_of_ofList {nodes : List Node} {s : Subtree}
    (h : ofList nodes = .ok s) : ∃ n ∈ nodes, s.root.parent = n.parent := by
  obtain ⟨root, hgrown⟩ := ofList_eq_ok.1 h
  have hroot : s.root ∈ s.nodes := List.mem_cons_self
  have hid := hgrown.id_root
  rw [hgrown.inOrder] at hroot
  obtain ⟨n, hn, heq⟩ := List.mem_map.1 hroot
  obtain ⟨id, -, hlookup⟩ := List.mem_filterMap.1 hn
  have hmem := ((NodeTable.lookup_ofList_eq_some hgrown.distinct).1 hlookup).1
  refine ⟨n, hmem, ?_⟩
  rw [← heq, id_link] at hid
  rw [← heq, parent_link, (hgrown.owner_eq_none (List.mem_map_of_mem hmem)).2 hid]
  rfl

/-- A subtree that has been read is as it will arrive anywhere else. -/
theorem Chunk.packed_toSubtree {types : TypeRegistry} {chunk : Chunk} {known : NodeTable}
    {tree : Subtree} (h : chunk.toSubtree types known = .ok tree) : tree.Packed where
  top := by
    obtain ⟨nodes, hnodes, hlist⟩ := exists_nodes_of_toSubtree h
    obtain ⟨n, hn, heq⟩ := Subtree.exists_root_of_ofList hlist
    obtain ⟨item, -, hitem⟩ := exists_of_mem_mapM hnodes n hn
    exact heq.trans (parent_toNode hitem)
  filled := filled_toSubtree h

/-- A change that has been planned from what was read arrives anywhere else as it is. -/
theorem Model.travelled_of_plan {m : Model} {e : Edit} {c : Change} (hk : m.nodes.Keyed)
    (hplan : m.plan e = .ok c)
    (hread : ∀ tree ∈ e.incoming, ∃ chunk, m.resolveChunk chunk = .ok tree) : c.travelled = c := by
  refine Change.travelled_eq_self_iff.2 fun tree htree => ?_
  rw [Model.incoming_of_plan hk hplan] at htree
  obtain ⟨chunk, hchunk⟩ := hread tree htree
  exact Chunk.packed_toSubtree hchunk

/-- What has been understood of a command has travelled already. -/
theorem Protocol.Command.travelled_of_toChange {m : Model} {command : Command} {c : Change}
    (hk : m.nodes.Keyed) (h : command.toChange m = .ok c) : c.travelled = c := by
  obtain ⟨e, he, hplan, -⟩ := toChange_eq_ok.1 h
  exact Model.travelled_of_plan hk hplan (exists_chunk_of_toEdit he)

/-- What has been understood of an event has travelled already. -/
theorem Protocol.Event.travelled_of_toChange {m : Model} {event : Event} {c : Change}
    (hk : m.nodes.Keyed) (h : event.toChange m = .ok c) : c.travelled = c := by
  obtain ⟨e, he, hplan, -⟩ := toChange_eq_ok.1 h
  exact Model.travelled_of_plan hk hplan (exists_chunk_of_toEdit he)

/-! ## Names that lead back -/

/-- A place whose feature has been named in another way can be named back. -/
theorem Place.rename_back {φ ψ : Type} {f : φ → Except Fault ψ} {g : ψ → Except Fault φ}
    (hback : ∀ x y, f x = .ok y → g y = .ok x) {p : Place φ} {q : Place ψ}
    (h : p.rename f = .ok q) : q.rename g = .ok p := by
  obtain ⟨y, hy, h⟩ := bind_eq_ok.1 h
  cases h
  rw [rename, hback _ _ hy]
  rfl

namespace Shift

variable {φ ψ : Type} {f : φ → Except Fault ψ} {s s' : Shift φ} {t : Shift ψ}

/-- A move whose features have been named in another way can be named back. -/
theorem rename_back {g : ψ → Except Fault φ} (hback : ∀ x y, f x = .ok y → g y = .ok x)
    (h : s.rename f = .ok t) : t.rename g = .ok s := by
  cases s <;> simp only [rename, bind_eq_ok, pure_eq_ok, Except.ok.injEq] at h
  case elsewhere target source =>
    obtain ⟨p, hp, q, hq, rfl⟩ := h
    rw [rename, Place.rename_back hback hp, ok_bind, Place.rename_back hback hq]
    rfl
  case sameOwner owner newFeature newIndex oldFeature oldIndex =>
    obtain ⟨y, hy, z, hz, rfl⟩ := h
    rw [rename, hback _ _ hy, ok_bind, hback _ _ hz]
    rfl
  case sameList owner feature newIndex oldIndex =>
    obtain ⟨y, hy, rfl⟩ := h
    rw [rename, hback _ _ hy]
    rfl

/-- A move of entries is known by where it ends, where it starts, and how far it goes. -/
theorem eq_of_reach (htarget : s.target = s'.target) (hsource : s.source = s'.source)
    (hreach : s.reach "Reference" = s'.reach "Reference") : s = s' := by
  cases s <;> cases s' <;> simp_all [target, source, reach]

end Shift

section Resolved

variable {m : Model} {kind : ElementKind} {p : Pointer} {h : Handle}

/-- A value is resolved by its property, which tells the data type for the text. -/
theorem Model.resolveValue_eq_ok {s : String} {v : Value} :
    m.resolveValue p s = .ok (h, v) ↔ ∃ info type, m.types.feature .property p = .ok info ∧
      info.dataType? = some type ∧ Value.ofText? type s = some v ∧ info.handle = h := by
  rw [resolveValue]
  cases m.types.feature .property p with
  | error fault => simp
  | ok info =>
    rw [ok_bind]
    cases htype : info.dataType? with
    | none => simp [htype]
    | some type =>
      cases hv : Value.ofText? type s <;> simp [htype, Value.read, hv, and_comm]

variable (hl : m.types.Lawful)

include hl

/-- The pointer by which a classifier has been found is the one that it is told by. -/
theorem pointer_of_resolveClassifier (hp : m.resolveClassifier p = .ok h) :
    m.types.pointer h = .ok p := by
  obtain ⟨info, hinfo, heq⟩ := bind_eq_ok.1 hp
  cases heq
  exact hl.pointer_classifier hinfo

/-- The pointer by which a feature has been found is the one that it is told by. -/
theorem pointer_of_resolveFeature (hp : m.resolveFeature kind p = .ok h) :
    m.types.pointer h = .ok p := by
  obtain ⟨info, hinfo, heq⟩ := bind_eq_ok.1 hp
  cases heq
  exact hl.pointer_feature hinfo

/-- The pointer by which a property has been found is the one that it is told by. -/
theorem pointer_of_resolveValue {s : String} {v : Value} (hp : m.resolveValue p s = .ok (h, v)) :
    m.types.pointer h = .ok p := by
  obtain ⟨info, type, hinfo, -, -, rfl⟩ := Model.resolveValue_eq_ok.1 hp
  exact hl.pointer_feature hinfo

/-- The place that has been understood is told by the pointer that it was told by. -/
theorem rename_place {place : Place Handle} {q : Place Pointer}
    (hq : q.rename (m.resolveFeature kind) = .ok place) :
    place.rename m.types.pointer = .ok q :=
  Place.rename_back (fun _ _ => pointer_of_resolveFeature hl) hq

/-- A feature has been found by one pointer only. -/
theorem resolveFeature_injective {q : Pointer} (hp : m.resolveFeature kind p = .ok h)
    (hq : m.resolveFeature kind q = .ok h) : p = q :=
  Except.ok.inj ((pointer_of_resolveFeature hl hp).symm.trans (pointer_of_resolveFeature hl hq))

end Resolved

/-- An entry that passes the check is what it was. -/
theorem Entry.eq_of_checked {e e' : Entry} (h : e.checked = .ok e') : e' = e := by
  obtain ⟨-, -, heq⟩ := bind_eq_ok.1 h
  exact (Except.ok.inj heq).symm

/-! ## The normal form -/

namespace Model

variable (m : Model)

/-- A chunk as it is written once it has been read. -/
def rewrittenChunk (c : Chunk) : Except Fault Chunk := do
  Chunk.ofSubtree m.types (← m.resolveChunk c)

/-- A text for a property as it is written once its value has been read. -/
def rewrittenText (p : Pointer) (s : String) : Except Fault String := do
  let (_, v) ← m.resolveValue p s
  return v.text

variable {m}

/-- A text is written as it has been read, unless it is an integer that is not spelled
    canonically. -/
theorem rewrittenText_eq_iff {p : Pointer} {s text : String}
    (h : m.rewrittenText p s = .ok text) : text = s ↔
      ∀ info, m.types.feature .property p = .ok info → info.dataType? = some .integer →
        Text.isCanonical s = true := by
  obtain ⟨⟨property, v⟩, hv, heq⟩ := bind_eq_ok.1 h
  cases heq
  obtain ⟨info, type, hinfo, htype, htext, -⟩ := resolveValue_eq_ok.1 hv
  rw [Value.text_eq_iff htext, hinfo]
  simp [htype]

end Model

namespace Protocol

namespace Command

/-- A command with its chunk and the text of its value as they are written once they have been
    read. -/
def rewritten (m : Model) : Command → Except Fault Command
  | addPartition new => return addPartition (← m.rewrittenChunk new)
  | addProperty node property value =>
    return addProperty node property (← m.rewrittenText property value)
  | changeProperty node property value =>
    return changeProperty node property (← m.rewrittenText property value)
  | addChild place new => return addChild place (← m.rewrittenChunk new)
  | replaceChild place old new => return replaceChild place old (← m.rewrittenChunk new)
  | Command.addAnnotation place new =>
    return Command.addAnnotation place (← m.rewrittenChunk new)
  | Command.replaceAnnotation place old new =>
    return Command.replaceAnnotation place old (← m.rewrittenChunk new)
  | c => return c

/-- The chunk in a command. -/
def chunk? : Command → Option Chunk
  | addPartition new => some new
  | addChild _ new => some new
  | replaceChild _ _ new => some new
  | Command.addAnnotation _ new => some new
  | Command.replaceAnnotation _ _ new => some new
  | _ => none

/-- The property that a command sets, and the text of the value. -/
def setting? : Command → Option (Pointer × String)
  | addProperty _ property value => some (property, value)
  | changeProperty _ property value => some (property, value)
  | _ => none

/-- Whether an integer in a command is spelled canonically. -/
def SpelledCanonically (types : TypeRegistry) (c : Command) : Prop :=
  ∀ p s, c.setting? = some (p, s) → ∀ info, types.feature .property p = .ok info →
    info.dataType? = some .integer → Text.isCanonical s = true

variable {m : Model} {command command' : Command} {c : Change} {e : Edit}

/-- Rewriting a command does not change its kind. -/
theorem kind_rewritten (h : command.rewritten m = .ok command') : command'.kind = command.kind := by
  cases command <;> simp only [rewritten, bind_eq_ok, pure_eq_ok, Except.ok.injEq] at h
  case addPartition | addProperty | changeProperty | addChild | replaceChild | addAnnotation |
      replaceAnnotation =>
    obtain ⟨_, -, rfl⟩ := h
    rfl
  all_goals
    subst h
    rfl

/-- A command without a chunk is written as it has been read if an integer in it is spelled
    canonically, and only then. -/
theorem rewritten_eq_iff (hchunk : command.chunk? = none)
    (h : command.rewritten m = .ok command') :
    command' = command ↔ command.SpelledCanonically m.types := by
  cases command <;> simp only [rewritten, bind_eq_ok, pure_eq_ok, Except.ok.injEq] at h
  case addPartition | addChild | replaceChild | addAnnotation | replaceAnnotation => cases hchunk
  case addProperty node property value | changeProperty node property value =>
    obtain ⟨text, htext, rfl⟩ := h
    simpa [SpelledCanonically, setting?] using Model.rewrittenText_eq_iff htext
  all_goals
    subst h
    exact iff_of_true rfl fun _ _ hset => nomatch hset

/-! ## Moves -/

/-- Where a child is to go is known by the place and by how far it goes. -/
theorem destination_injective (hl : m.types.Lawful) {target target' : Destination}
    {moved : NodeId} {place : Place Handle} (h : toEdit.destination m target moved = .ok place)
    (h' : toEdit.destination m target' moved = .ok place) (hreach : target.reach = target'.reach) :
    target = target' := by
  cases target <;> cases target' <;> try simp [Destination.reach] at hreach
  case elsewhere.elsewhere p q =>
    have hp := rename_place hl h
    have hq := rename_place hl h'
    exact congrArg _ (Except.ok.inj (hp.symm.trans hq))
  case sameOwner.sameOwner f i g j =>
    obtain ⟨source, hsource, h⟩ := bind_eq_ok.1 h
    obtain ⟨source', hsource', h'⟩ := bind_eq_ok.1 h'
    obtain ⟨x, hx, ⟨⟩⟩ := bind_eq_ok.1 h
    obtain ⟨y, hy, heq⟩ := bind_eq_ok.1 h'
    obtain ⟨-, rfl, rfl⟩ := Place.mk.inj (Except.ok.inj heq)
    rw [resolveFeature_injective hl hx hy]
  case sameList.sameList i j =>
    obtain ⟨source, hsource, h⟩ := bind_eq_ok.1 h
    obtain ⟨source', hsource', h'⟩ := bind_eq_ok.1 h'
    cases h
    exact congrArg _ (congrArg Place.index (Except.ok.inj h')).symm

/-- Where an annotation is to go is known by the place and by how far it goes. -/
theorem annotationDestination_injective {target target' : AnnotationDestination}
    {moved : NodeId} {place : AnnotationPlace}
    (h : toEdit.annotationDestination m target moved = .ok place)
    (h' : toEdit.annotationDestination m target' moved = .ok place)
    (hreach : target.reach = target'.reach) : target = target' := by
  cases target <;> cases target' <;> try simp [AnnotationDestination.reach] at hreach
  case elsewhere.elsewhere p q => exact congrArg _ (Except.ok.inj (h.trans h'.symm))
  case sameOwner.sameOwner i j =>
    obtain ⟨source, hsource, h⟩ := bind_eq_ok.1 h
    obtain ⟨source', hsource', h'⟩ := bind_eq_ok.1 h'
    cases h
    exact congrArg _ (congrArg AnnotationPlace.index (Except.ok.inj h')).symm

/-- A move of a child is told as it has been understood. -/
theorem exists_ofShift (hl : m.types.Lawful) (hnodes : m.nodes.Typed m.types)
    {target : Destination} {moved : NodeId} {place source : Place Handle}
    (htarget : toEdit.destination m target moved = .ok place)
    (hsource : m.locateChild moved = .ok source)
    (hinfo : ∃ info, m.types.featureAt .containment place.feature = .ok info)
    (hreach : (Shift.between place source).reach "Containment" = target.reach) :
    ∃ s, (Shift.between place source).rename m.types.pointer = .ok s ∧
      Destination.ofShift s = target := by
  rw [← Shift.target_between place source] at htarget hinfo
  rw [← Shift.source_between place source] at hsource
  obtain ⟨s, hs, hshift⟩ :=
    exists_shift hl hinfo (Model.featureAt_of_locateChild hnodes hsource)
  exact ⟨s, hs, destination_injective hl (destination_ofShift hshift hsource) htarget
    ((reach_ofShift s).trans ((Shift.reach_rename hs _).trans hreach))⟩

/-- A move of an annotation is told as it has been understood. -/
theorem ofShift_eq {target : AnnotationDestination} {moved : NodeId}
    {place source : AnnotationPlace}
    (htarget : toEdit.annotationDestination m target moved = .ok place)
    (hsource : m.locateAnnotation moved = .ok source)
    (hreach : (AnnotationShift.between place source).reach = target.reach) :
    AnnotationDestination.ofShift (.between place source) = target := by
  rw [← AnnotationShift.target_between place source] at htarget
  rw [← AnnotationShift.source_between place source] at hsource
  exact annotationDestination_injective (annotationDestination_ofShift hsource) htarget
    ((reach_ofAnnotationShift _).trans hreach)

/-- A move of an entry is told as it has been understood. -/
theorem rename_between (hl : m.types.Lawful) {s : Shift Pointer} {shift : Shift Handle}
    (hs : s.rename (m.resolveFeature .reference) = .ok shift)
    (hreach : (Shift.between shift.target shift.source).reach "Reference" = s.reach "Reference") :
    (Shift.between shift.target shift.source).rename m.types.pointer = .ok s := by
  have hsame : Shift.between shift.target shift.source = shift :=
    Shift.eq_of_reach (Shift.target_between _ _) (Shift.source_between _ _)
      (hreach.trans (Shift.reach_rename hs _).symm)
  rw [hsame]
  exact Shift.rename_back (fun _ _ => pointer_of_resolveFeature hl) hs

/-! ## What is told of what has been understood -/

/-- A command about a whole node is told again: its classifier by the pointer that it had, and a
    partition that goes by its root. -/
theorem ofChange_of_toEdit_node (hl : m.types.Lawful) (hk : m.nodes.Keyed)
    (hs : command.subject = .node) (he : command.toEdit m = .ok e) (hplan : m.plan e = .ok c) :
    ofChange m.types c = command.rewritten m := by
  cases command <;> cases hs <;>
    simp only [toEdit, bind_eq_ok, pure_eq_ok, Except.ok.injEq] at he
  case addPartition new =>
    obtain ⟨tree, htree, rfl⟩ := he
    obtain ⟨-, -, -, -, rfl⟩ := Model.planAddPartition_eq_ok.1 hplan
    rw [ofChange, rewritten, Model.rewrittenChunk, htree, ok_bind]
  -- What leaves is the subtree below the node that was named.
  case deletePartition old =>
    subst he
    obtain ⟨-, -, -, gone, hgone, rfl⟩ := Model.planDeletePartition_eq_ok.1 hplan
    rw [ofChange, Model.id_of_leaving hk hgone]
    rfl
  case changeClassifier node new =>
    obtain ⟨classifier, hclassifier, rfl⟩ := he
    obtain ⟨-, n, -, -, -, rfl⟩ := Model.planChangeClassifier_eq_ok.1 hplan
    rw [ofChange, pointer_of_resolveClassifier hl hclassifier]
    rfl

/-- A command about a property is told again, with the text of a new value as the value is
    written. -/
theorem ofChange_of_toEdit_property (hl : m.types.Lawful) (hs : command.subject = .property)
    (he : command.toEdit m = .ok e) (hplan : m.plan e = .ok c) :
    ofChange m.types c = command.rewritten m := by
  cases command <;> cases hs <;>
    simp only [toEdit, bind_eq_ok, pure_eq_ok, Except.ok.injEq, Prod.exists] at he
  case addProperty node property value =>
    obtain ⟨p, v, hv, rfl⟩ := he
    obtain ⟨-, -, -, -, -, rfl⟩ := Model.planAddProperty_eq_ok.1 hplan
    -- The text is read as a value and that is written again, perhaps in another spelling.
    rw [ofChange, rewritten, Model.rewrittenText, pointer_of_resolveValue hl hv, hv]
    rfl
  case deleteProperty node property =>
    obtain ⟨p, hp, rfl⟩ := he
    obtain ⟨v, -, rfl⟩ := Model.planDeleteProperty_eq_ok.1 hplan
    rw [ofChange, pointer_of_resolveFeature hl hp]
    rfl
  case changeProperty node property value =>
    obtain ⟨p, v, hv, rfl⟩ := he
    obtain ⟨-, -, -, -, old, -, rfl⟩ := Model.planChangeProperty_eq_ok.1 hplan
    rw [ofChange, rewritten, Model.rewrittenText, pointer_of_resolveValue hl hv, hv]
    rfl

/-- A command about a child is told again. A move may have left out where the child is to go as far
    as that is as before, but then its kind says so. -/
theorem ofChange_of_toEdit_child (hl : m.types.Lawful) (hnodes : m.nodes.Typed m.types)
    (hk : m.nodes.Keyed) (hs : command.subject = .child) (he : command.toEdit m = .ok e)
    (hplan : m.plan e = .ok c) (hkind : c.kind = command.changeKind) :
    ofChange m.types c = command.rewritten m := by
  cases command <;> cases hs <;>
    simp only [toEdit, bind_eq_ok, pure_eq_ok, Except.ok.injEq] at he
  case addChild place new =>
    obtain ⟨p, hp, tree, htree, rfl⟩ := he
    obtain ⟨-, -, -, -, -, -, rfl⟩ := Model.planAddChild_eq_ok.1 hplan
    rw [ofChange, rewritten, Model.rewrittenChunk, rename_place hl hp, htree]
    rfl
  case deleteChild place old =>
    obtain ⟨p, hp, rfl⟩ := he
    obtain ⟨-, gone, hgone, rfl⟩ := Model.planDeleteChild_eq_ok.1 hplan
    rw [ofChange, rename_place hl hp, Model.id_of_leaving hk hgone]
    rfl
  case replaceChild place old new =>
    obtain ⟨p, hp, tree, htree, rfl⟩ := he
    obtain ⟨-, -, gone, hgone, rfl⟩ := Model.planReplaceChild_eq_ok.1 hplan
    rw [ofChange, rewritten, Model.rewrittenChunk, rename_place hl hp, htree,
      Model.id_of_leaving hk hgone]
    rfl
  case moveChild target moved =>
    obtain ⟨place, hplace, rfl⟩ := he
    obtain ⟨n, info, source, hslot, hsource, -, -, -, rfl⟩ := Model.planMoveChild_eq_ok.1 hplan
    -- The kind says how far the child goes, and so in which form that is told.
    obtain ⟨s, hs, htarget⟩ := exists_ofShift hl hnodes hplace hsource
      ⟨info, (Model.slot_eq_ok.1 hslot).1⟩ ((String.append_right_inj _).1 hkind)
    rw [ofChange, hs, ok_bind, htarget]
    rfl
  case moveAndReplaceChild target moved old =>
    obtain ⟨place, hplace, rfl⟩ := he
    obtain ⟨source, gone, hat, hsource, -, -, hgone, rfl⟩ :=
      Model.planMoveAndReplaceChild_eq_ok.1 hplan
    obtain ⟨s, hs, htarget⟩ := exists_ofShift hl hnodes hplace hsource
      (Model.featureAt_of_childAt hat) ((String.append_right_inj _).1 hkind)
    rw [ofChange, hs, ok_bind, htarget, Model.id_of_leaving hk hgone]
    rfl

/-- A command about an annotation is told again, its moves as far as their kind says. -/
theorem ofChange_of_toEdit_annotation (hk : m.nodes.Keyed)
    (hs : command.subject = Subject.annotation) (he : command.toEdit m = .ok e)
    (hplan : m.plan e = .ok c) (hkind : c.kind = command.changeKind) :
    ofChange m.types c = command.rewritten m := by
  cases command <;> cases hs <;>
    simp only [toEdit, bind_eq_ok, pure_eq_ok, Except.ok.injEq] at he
  case addAnnotation place new =>
    obtain ⟨tree, htree, rfl⟩ := he
    obtain ⟨-, -, -, -, -, rfl⟩ := Model.planAddAnnotation_eq_ok.1 hplan
    rw [ofChange, rewritten, Model.rewrittenChunk, htree, ok_bind]
  case deleteAnnotation place old =>
    subst he
    obtain ⟨-, gone, hgone, rfl⟩ := Model.planDeleteAnnotation_eq_ok.1 hplan
    rw [ofChange, Model.id_of_leaving hk hgone]
    rfl
  case replaceAnnotation place old new =>
    obtain ⟨tree, htree, rfl⟩ := he
    obtain ⟨-, -, -, gone, hgone, rfl⟩ := Model.planReplaceAnnotation_eq_ok.1 hplan
    rw [ofChange, rewritten, Model.rewrittenChunk, htree, Model.id_of_leaving hk hgone, ok_bind]
  case moveAnnotation target moved =>
    obtain ⟨place, hplace, rfl⟩ := he
    obtain ⟨-, source, -, hsource, -, -, rfl⟩ := Model.planMoveAnnotation_eq_ok.1 hplan
    rw [ofChange, ofShift_eq hplace hsource ((String.append_right_inj _).1 hkind)]
    rfl
  case moveAndReplaceAnnotation target moved old =>
    obtain ⟨place, hplace, rfl⟩ := he
    obtain ⟨source, gone, -, hsource, -, -, hgone, rfl⟩ :=
      Model.planMoveAndReplaceAnnotation_eq_ok.1 hplan
    rw [ofChange, ofShift_eq hplace hsource ((String.append_right_inj _).1 hkind),
      Model.id_of_leaving hk hgone]
    rfl

/-- A command about an entry is told again. A move names both places in any case, so that the kind
    decides on the form in which it does. -/
theorem ofChange_of_toEdit_entry (hl : m.types.Lawful) (hs : command.subject = .entry)
    (he : command.toEdit m = .ok e) (hplan : m.plan e = .ok c)
    (hkind : c.kind = command.changeKind) : ofChange m.types c = command.rewritten m := by
  cases command <;> cases hs <;>
    simp only [toEdit, bind_eq_ok, pure_eq_ok, Except.ok.injEq] at he
  case addEntry place new =>
    obtain ⟨p, hp, entry, hentry, rfl⟩ := he
    obtain ⟨-, -, -, -, -, -, rfl⟩ := Model.planAddEntry_eq_ok.1 hplan
    rw [ofChange, rename_place hl hp, Entry.eq_of_checked hentry]
    rfl
  case changeEntry place new =>
    obtain ⟨p, hp, entry, hentry, rfl⟩ := he
    obtain ⟨old, -, -, rfl⟩ := Model.planChangeEntry_eq_ok.1 hplan
    rw [ofChange, rename_place hl hp, Entry.eq_of_checked hentry]
    rfl
  case moveEntry s =>
    obtain ⟨shift, hshift, rfl⟩ := he
    obtain ⟨entry, -, -, -, -, -, -, rfl⟩ := Model.planMoveEntry_eq_ok.1 hplan
    rw [ofChange, rename_between hl hshift ((String.append_right_inj _).1 hkind)]
    rfl
  case moveAndReplaceEntry s =>
    obtain ⟨shift, hshift, rfl⟩ := he
    obtain ⟨entry, old, -, -, -, rfl⟩ := Model.planMoveAndReplaceEntry_eq_ok.1 hplan
    rw [ofChange, rename_between hl hshift ((String.append_right_inj _).1 hkind)]
    rfl
  case deleteEntry place =>
    obtain ⟨p, hp, rfl⟩ := he
    obtain ⟨entry, -, rfl⟩ := Model.planDeleteEntry_eq_ok.1 hplan
    rw [ofChange, rename_place hl hp]
    rfl

/-- A command about one half of an entry is told again, as it names nothing but the place and what
    is new there. -/
theorem ofChange_of_toEdit_half (hl : m.types.Lawful) (hs : command.subject = .half)
    (he : command.toEdit m = .ok e) (hplan : m.plan e = .ok c) :
    ofChange m.types c = command.rewritten m := by
  cases command <;> cases hs <;>
    simp only [toEdit, bind_eq_ok, pure_eq_ok, Except.ok.injEq] at he
  case addResolveInfo place info =>
    obtain ⟨p, hp, rfl⟩ := he
    obtain ⟨entry, -, -, rfl⟩ := Model.planAddResolveInfo_eq_ok.1 hplan
    rw [ofChange, rename_place hl hp]
    rfl
  case deleteResolveInfo place =>
    obtain ⟨p, hp, rfl⟩ := he
    obtain ⟨entry, old, -, -, -, rfl⟩ := Model.planDeleteResolveInfo_eq_ok.1 hplan
    rw [ofChange, rename_place hl hp]
    rfl
  case changeResolveInfo place info =>
    obtain ⟨p, hp, rfl⟩ := he
    obtain ⟨entry, old, -, -, rfl⟩ := Model.planChangeResolveInfo_eq_ok.1 hplan
    rw [ofChange, rename_place hl hp]
    rfl
  case addTarget place new =>
    obtain ⟨p, hp, rfl⟩ := he
    obtain ⟨entry, -, -, -, rfl⟩ := Model.planAddTarget_eq_ok.1 hplan
    rw [ofChange, rename_place hl hp]
    rfl
  case deleteTarget place =>
    obtain ⟨p, hp, rfl⟩ := he
    obtain ⟨entry, old, -, -, -, rfl⟩ := Model.planDeleteTarget_eq_ok.1 hplan
    rw [ofChange, rename_place hl hp]
    rfl
  case changeTarget place new =>
    obtain ⟨p, hp, rfl⟩ := he
    obtain ⟨entry, old, -, -, -, rfl⟩ := Model.planChangeTarget_eq_ok.1 hplan
    rw [ofChange, rename_place hl hp]
    rfl

/-- What has been planned from the edit that a command asks for is told as the command itself,
    rewritten. -/
theorem ofChange_of_toEdit (hl : m.types.Lawful) (hnodes : m.nodes.Typed m.types)
    (hk : m.nodes.Keyed) (he : command.toEdit m = .ok e) (hplan : m.plan e = .ok c)
    (hkind : c.kind = command.changeKind) : ofChange m.types c = command.rewritten m := by
  -- A planned change takes over what the edit says, and pointers lead back.
  cases hs : command.subject with
  | node => exact ofChange_of_toEdit_node hl hk hs he hplan
  | property => exact ofChange_of_toEdit_property hl hs he hplan
  | child => exact ofChange_of_toEdit_child hl hnodes hk hs he hplan hkind
  | annotation => exact ofChange_of_toEdit_annotation hk hs he hplan hkind
  | entry => exact ofChange_of_toEdit_entry hl hs he hplan hkind
  | half => exact ofChange_of_toEdit_half hl hs he hplan

/-- What a command has been understood as is told as the command itself, rewritten. -/
theorem ofChange_of_toChange (hl : m.types.Lawful) (hnodes : m.nodes.Typed m.types)
    (hk : m.nodes.Keyed) (hc : command.toChange m = .ok c) :
    ofChange m.types c = command.rewritten m := by
  obtain ⟨e, he, hplan, hkind⟩ := toChange_eq_ok.1 hc
  exact ofChange_of_toEdit hl hnodes hk he hplan hkind

end Command

end Protocol

/-! ## Normal forms in whatever has come about -/

/-- The normal form of a command that has been understood as a change. -/
structure Forest.Retells (f : Forest) (command : Command) (c : Change) (normal : Command) :
    Prop where
  /-- The change is told as the normal form. -/
  told : Command.ofChange f.types c = .ok normal
  /-- The normal form is the command with its chunk and the text of its value rewritten. -/
  rewritten : command.rewritten f.model = .ok normal
  /-- Rewriting the normal form comes to nothing. -/
  settled : normal.rewritten f.model = .ok normal
  kind : normal.kind = command.kind
  /-- The normal form is understood as the change, too. -/
  understood : normal.toChange f.model = .ok c
  /-- A command without a chunk is its own normal form just if an integer in it is spelled
      canonically. -/
  same : command.chunk? = none → (normal = command ↔ command.SpelledCanonically f.types)

/-- In whatever has come about, every command that is understood has a normal form. -/
theorem Site.Reachable.retells {types : TypeRegistry} {site : Site} {past : List Checkpoint}
    {made : List Change} {languages : List Language}
    (htypes : TypeRegistry.registerAll .empty languages = .ok types)
    (h : Site.Reachable types site past made) {command : Command} {c : Change}
    (hc : command.toChange site.forest.model = .ok c) :
    ∃ normal, site.forest.Retells command c normal := by
  have hproper := h.proper
  have hk := hproper.wellFormed.treelike.keyed
  have hl := TypeRegistry.lawful_of_registerAll htypes
  obtain rfl := hproper.types
  obtain ⟨e, he, hplan, -⟩ := Command.toChange_eq_ok.1 hc
  have htree : ∀ tree ∈ c.incoming, tree.IsTree := by
    rw [Model.incoming_of_plan hk hplan]
    exact Command.isTree_of_toEdit he
  obtain ⟨normal, htold, hunderstood⟩ :=
    Forest.exists_command hl hproper (Model.replan_of_plan hk hplan) htree
  rw [Command.travelled_of_toChange hk hc] at hunderstood
  have hrewritten := (Command.ofChange_of_toChange hl hproper.typed hk hc).symm.trans htold
  have hsettled :=
    (Command.ofChange_of_toChange hl hproper.typed hk hunderstood).symm.trans htold
  exact ⟨normal, htold, hrewritten, hsettled, Command.kind_rewritten hrewritten, hunderstood,
    fun hchunk => Command.rewritten_eq_iff hchunk hrewritten⟩

/-! ## A number of pages -/

namespace Examples

/-- The first book is to have a number of pages, which can be spelled in many ways. -/
def paging (pages : String) : Command :=
  .addProperty ⟨"novel"⟩ ⟨"library", "1", "Book-pages"⟩ pages

/-- It has seven pages. -/
def paged : Change := .propertyAdded ⟨"novel"⟩ ⟨7⟩ (.integer 7)

theorem retells_paging : TypeRegistry.registerAll .empty [library] = .ok libraryTypes ∧
    Site.Reachable libraryTypes stocked [] [opening, shelving] ∧
    (paging "+007").toChange stocked.forest.model = .ok paged ∧
    stocked.forest.Retells (paging "+007") paged (paging "7") := by
  have hpaged : (paging "+007").toChange stocked.forest.model = .ok paged := by decide +kernel
  obtain ⟨normal, hretells⟩ :=
    Site.Reachable.retells registerAll_library reachable_stocked hpaged
  have htold : Command.ofChange stocked.forest.types paged = .ok (paging "7") := by
    decide +kernel
  obtain rfl : normal = paging "7" := Except.ok.inj (hretells.told.symm.trans htold)
  exact ⟨registerAll_library, reachable_stocked, hpaged, hretells⟩

end Examples

end DeltaForest
