import DeltaForest.Proofs.Conforming
import DeltaForest.Proofs.Decimal
import DeltaForest.Proofs.Integrity
import DeltaForest.Proofs.Registered
import DeltaForest.Proofs.Regrow

/-!
# Subtrees on their way

A tree of nodes that conform to their types can be written as a chunk, and the chunk, read where
the same types are registered and all that the nodes refer to is known, is the tree again, but for
what does not travel (`Chunk.toSubtree_ofSubtree`). Every node is written and read on its own: each
pointer leads back to the handle that it was written for, each text is the value that it was written
for, and what is written feature by feature is read feature by feature (`exists_mapM_foldlM`).
-/

namespace DeltaForest

/-- What is written element by element can be taken in element by element, if each can. -/
theorem exists_mapM_foldlM {ε α β σ : Type} {write : α → Except ε β} {read : σ → β → Except ε σ}
    {absorb : σ → α → σ} (Good : σ → Prop) {l : List α}
    (h : ∀ a ∈ l, ∃ b, write a = .ok b ∧
      ∀ s, Good s → read s b = .ok (absorb s a) ∧ Good (absorb s a)) :
    ∃ bs, l.mapM write = .ok bs ∧
      ∀ s, Good s → bs.foldlM read s = .ok (l.foldl absorb s) ∧ Good (l.foldl absorb s) := by
  -- What is kept while reading must hold again for the next item to be read.
  induction l with
  | nil => exact ⟨[], rfl, fun s hs => ⟨rfl, hs⟩⟩
  | cons a l ih =>
    obtain ⟨ha, hl⟩ := List.forall_mem_cons.1 h
    obtain ⟨b, hb, hread⟩ := ha
    obtain ⟨bs, hbs, hreads⟩ := ih hl
    refine ⟨b :: bs, ?_, fun s hs => ?_⟩
    · rw [List.mapM_cons, hb, ok_bind, hbs, ok_bind]
      rfl
    · obtain ⟨hfirst, hgood⟩ := hread s hs
      rw [List.foldlM_cons, hfirst, ok_bind]
      exact hreads _ hgood

/-- What is written element by element can be read element by element. -/
theorem exists_mapM_mapM {ε α β γ : Type} {write : α → Except ε β} {read : β → Except ε γ}
    {g : α → γ} {l : List α} (h : ∀ a ∈ l, ∃ b, write a = .ok b ∧ read b = .ok (g a)) :
    ∃ bs, l.mapM write = .ok bs ∧ bs.mapM read = .ok (l.map g) := by
  induction l with
  | nil => exact ⟨[], rfl, rfl⟩
  | cons a l ih =>
    obtain ⟨⟨b, hb, hread⟩, hl⟩ := List.forall_mem_cons.1 h
    obtain ⟨bs, hbs, hreads⟩ := ih hl
    refine ⟨b :: bs, ?_, ?_⟩
    · rw [List.mapM_cons, hb, ok_bind, hbs, ok_bind]
      rfl
    · rw [List.mapM_cons, hread, ok_bind, hreads, ok_bind]
      rfl

/-! ## Nodes -/

/-- A part of a node that is kept feature by feature. -/
structure Node.Part (α : Type) where
  get : Node → FeatureMap α
  put : Node → FeatureMap α → Node
  get_put : ∀ n m, get (put n m) = m
  put_get : ∀ n, put n (get n) = n
  put_put : ∀ n m m', put (put n m) m' = put n m'
  id_put : ∀ n m, (put n m).id = n.id
  classifier_put : ∀ n m, (put n m).classifier = n.classifier

namespace Node.Part

def properties : Part Value where
  get n := n.properties
  put n m := { n with properties := m }
  get_put _ _ := rfl
  put_get _ := rfl
  put_put _ _ _ := rfl
  id_put _ _ := rfl
  classifier_put _ _ := rfl

def containments : Part (List NodeId) where
  get n := n.containments
  put n m := { n with containments := m }
  get_put _ _ := rfl
  put_get _ := rfl
  put_put _ _ _ := rfl
  id_put _ _ := rfl
  classifier_put _ _ := rfl

def references : Part (List Entry) where
  get n := n.references
  put n m := { n with references := m }
  get_put _ _ := rfl
  put_get _ := rfl
  put_put _ _ _ := rfl
  id_put _ _ := rfl
  classifier_put _ _ := rfl

variable {α β : Type} (part : Part α) {keep : α → Bool} {n : Node}

/-- A node that is being read and is going to be `n`. -/
def Becoming (n s : Node) : Prop := s.id = n.id ∧ s.classifier = n.classifier

/-- A node that has taken in what there is for a feature, if it is to be kept. -/
def absorb (keep : α → Bool) (s : Node) (p : Handle × α) : Node :=
  if keep p.2 then part.put s ((part.get s).insert p.1 p.2) else s

theorem becoming_absorb {s : Node} (hs : Becoming n s) (p : Handle × α) :
    Becoming n (part.absorb keep s p) := by
  rw [absorb]
  split
  · exact ⟨(part.id_put _ _).trans hs.1, (part.classifier_put _ _).trans hs.2⟩
  · exact hs

theorem foldl_absorb (l : List (Handle × α)) (s : Node) :
    l.foldl (part.absorb keep) s = part.put s (gather (part.get s) keep l) := by
  induction l generalizing s with
  | nil => exact (part.put_get s).symm
  | cons p l ih =>
    rw [List.foldl_cons, ih, absorb, gather, gather, List.foldl_cons]
    split
    · rw [part.get_put, part.put_put]
    · rfl

/-- A part of a node is written and read if each of its features is. -/
theorem exists_written (write : Handle × α → Except Fault β)
    (read : Node → β → Except Fault Node) {m : FeatureMap α}
    (h : ∀ f a, m[f]? = some a → ∃ b, write (f, a) = .ok b ∧
      ∀ s, Becoming n s → read s b = .ok (part.absorb keep s (f, a))) :
    ∃ bs, m.toList.mapM write = .ok bs ∧ ∀ s, Becoming n s → part.get s = ∅ →
      bs.foldlM read s = .ok (part.put s (m.filter fun _ a => keep a)) := by
  obtain ⟨bs, hbs, hread⟩ : ∃ bs, m.toList.mapM write = .ok bs ∧ ∀ s, Becoming n s →
      bs.foldlM read s = .ok (m.toList.foldl (part.absorb keep) s) ∧
        Becoming n (m.toList.foldl (part.absorb keep) s) := by
    refine exists_mapM_foldlM (Becoming n) fun (f, a) hmem => ?_
    obtain ⟨b, hb, hread⟩ := h f a (Std.ExtTreeMap.mem_toList_iff_getElem?_eq_some.1 hmem)
    exact ⟨b, hb, fun s hs => ⟨hread s hs, part.becoming_absorb hs _⟩⟩
  -- Reading starts with the part empty, so what is gathered is all there is.
  refine ⟨bs, hbs, fun s hs hempty => ?_⟩
  rw [(hread s hs).1, foldl_absorb, hempty, gather_toList]

end Node.Part

namespace Chunk

open Node.Part (Becoming)

variable {n s : Node} {h : Handle}

section Feature

variable {types : TypeRegistry} (hl : types.Lawful)

include hl

/-- A feature of a node is found by its pointer. -/
theorem applicable_pointer {kind : ElementKind} {info : FeatureInfo}
    (hinfo : types.featureAt kind h = .ok info)
    (hdeclares : types.declares n.classifier info.handle = true) (hs : Becoming n s) :
    applicable types kind s info.pointer = .ok info := by
  rw [applicable, (hl.feature_pointer hinfo).2.1, ok_bind, hs.2, if_pos hdeclares]
  rfl

theorem exists_property {v : Value} (hv : ∃ info type, types.featureAt .property h = .ok info ∧
      types.declares n.classifier h = true ∧ info.dataType? = some type ∧
      v.conforms type = true) :
    ∃ p : Property, (do return ⟨← types.pointer h, some v.text⟩) = Except.ok p ∧
      ∀ s, Becoming n s → addProperty types s p =
        .ok (Node.Part.properties.absorb (fun _ => true) s (h, v)) := by
  obtain ⟨info, type, hinfo, hdeclares, htype, hconforms⟩ := hv
  obtain ⟨hpointer, -, rfl⟩ := hl.feature_pointer hinfo
  refine ⟨⟨info.pointer, some v.text⟩, by rw [hpointer]; rfl, fun s hs => ?_⟩
  rw [addProperty, applicable_pointer hl hinfo hdeclares hs, ok_bind]
  simp only [htype]
  rw [Value.read_text _ hconforms]
  rfl

theorem exists_containment {ids : List NodeId} {count : Nat}
    (hc : types.Admits .containment n.classifier h count) :
    ∃ c : Containment, (do return ⟨← types.pointer h, ids⟩) = Except.ok c ∧
      ∀ s, Becoming n s → addContainment types s c =
        .ok (Node.Part.containments.absorb (fun ids => !ids.isEmpty) s (h, ids)) := by
  obtain ⟨info, hinfo, hdeclares, -⟩ := hc
  obtain ⟨hpointer, -, rfl⟩ := hl.feature_pointer hinfo
  refine ⟨⟨info.pointer, ids⟩, by rw [hpointer]; rfl, fun s hs => ?_⟩
  rw [addContainment, applicable_pointer hl hinfo hdeclares hs, ok_bind]
  cases ids <;> rfl

theorem exists_reference {es : List Entry} {count : Nat}
    (hr : types.Admits .reference n.classifier h count)
    (htelling : ∀ e ∈ es, e.target.isSome ∨ e.resolveInfo.isSome) :
    ∃ r : Reference, (do return ⟨← types.pointer h, es⟩) = Except.ok r ∧
      ∀ s, Becoming n s → addReference types s r =
        .ok (Node.Part.references.absorb (fun es => !es.isEmpty) s (h, es)) := by
  obtain ⟨info, hinfo, hdeclares, -⟩ := hr
  obtain ⟨hpointer, -, rfl⟩ := hl.feature_pointer hinfo
  refine ⟨⟨info.pointer, es⟩, by rw [hpointer]; rfl, fun s hs => ?_⟩
  -- The reader drops an entry with neither target nor resolve info, and there is none.
  have hnone : es.any Entry.isEmpty = false := by
    rw [List.any_eq_false]
    exact fun e he => Bool.not_eq_true _ ▸ Entry.isEmpty_eq_false.2 (htelling e he)
  rw [addReference, applicable_pointer hl hinfo hdeclares hs, ok_bind]
  simp only [hnone]
  cases es <;> rfl

/-- A node that conforms is written, and read as the node again. -/
theorem exists_item (hn : n.Conforms types) :
    ∃ item, Item.ofNode types n = .ok item ∧ item.toNode types = .ok n.travelled := by
  obtain ⟨⟨info, hinfo⟩, hproperties, hcontainments, hreferences⟩ := hn
  obtain ⟨hpointer, hclassifier, hhandle⟩ := hl.classifier_pointer hinfo
  obtain ⟨ps, hps, hpsread⟩ := Node.Part.properties.exists_written (n := n)
    (fun p => do return ⟨← types.pointer p.1, some p.2.text⟩) (addProperty types)
    fun f a hfa => exists_property hl (hproperties f a hfa)
  obtain ⟨cs, hcs, hcsread⟩ := Node.Part.containments.exists_written (n := n)
    (fun c => do return ⟨← types.pointer c.1, c.2⟩) (addContainment types)
    fun f a hfa => exists_containment hl (hcontainments f a hfa)
  obtain ⟨rs, hrs, hrsread⟩ := Node.Part.references.exists_written (n := n)
    (fun r => do return ⟨← types.pointer r.1, r.2⟩) (addReference types)
    fun f a hfa => exists_reference hl (hreferences f a hfa).1 (hreferences f a hfa).2
  refine ⟨⟨n.id, info.pointer, ps, cs, rs, n.annotations, n.parent⟩, ?_, ?_⟩
  · rw [Item.ofNode, hpointer, ok_bind]
    exact bind_eq_ok.2 ⟨ps, hps, bind_eq_ok.2 ⟨cs, hcs, bind_eq_ok.2 ⟨rs, hrs, rfl⟩⟩⟩
  · -- The item is read into a bare node, part by part.
    have hall : n.properties.filter (fun _ _ => true) = n.properties := by
      ext k a
      simp
    rw [hall] at hpsread
    let bare := Node.bare n.id n.classifier
    let withProperties := Node.Part.properties.put bare n.properties
    let withContainments := Node.Part.containments.put withProperties
      (n.containments.filter fun _ ids => !ids.isEmpty)
    rw [Item.toNode, hclassifier, ok_bind]
    dsimp only
    rw [hhandle, hpsread bare ⟨rfl, rfl⟩ rfl, ok_bind, hcsread withProperties ⟨rfl, rfl⟩ rfl,
      ok_bind, hrsread withContainments ⟨rfl, rfl⟩ rfl, ok_bind]
    rfl

end Feature

/-- A tree of nodes that conform can be written as a chunk. Where its nodes are new, and what they
    refer to is known or is among them, the chunk is read as what travels of the tree. -/
theorem toSubtree_ofSubtree {types : TypeRegistry} (hl : types.Lawful) {known : NodeTable}
    {tree : Subtree} (htree : tree.IsTree) (hconforms : ∀ n ∈ tree.nodes, n.Conforms types)
    (hvacant : ∀ n ∈ tree.nodes, n.id ∉ known)
    (hsupplied : ∀ n ∈ tree.nodes, ∀ x ∈ n.targets,
      x ∈ tree.nodes.map Node.id ∨ x ∈ known) :
    ∃ chunk, ofSubtree types tree = .ok chunk ∧
      chunk.toSubtree types known = .ok tree.travelled := by
  obtain ⟨items, hitems, hread⟩ := exists_mapM_mapM (l := tree.nodes)
    fun n hn => exists_item hl (hconforms n hn)
  refine ⟨⟨items⟩, by rw [ofSubtree, hitems]; rfl,
    toSubtree_eq_ok.2 ⟨_, hread, ?_, ?_, Subtree.ofList_travelled htree⟩⟩
  · -- Ids and targets are the same on arrival.
    intro n' hn'
    obtain ⟨n, hn, rfl⟩ := List.mem_map.1 hn'
    exact hvacant n hn
  · intro n' hn' x hx
    obtain ⟨n, hn, rfl⟩ := List.mem_map.1 hn'
    rw [Node.targets_travelled] at hx
    rw [Subtree.ids_map_travelled]
    exact hsupplied n hn x hx

/-- What may enter can travel to where the same nodes are there. -/
theorem exists_travelled {m : Model} (hl : m.types.Lawful) {tree : Subtree} (htree : tree.IsTree)
    (hnew : m.checkNew tree = .ok ()) :
    ∃ chunk, ofSubtree m.types tree = .ok chunk ∧
      chunk.toSubtree m.types m.nodes = .ok tree.travelled :=
  toSubtree_ofSubtree hl htree (Model.conforms_of_checkNew hl hnew)
    (Model.checkNew_eq_ok.1 hnew).1 (Model.supplied_of_checkNew hnew)

end Chunk

end DeltaForest
