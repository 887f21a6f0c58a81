import DeltaForest.Proofs.Returning
import DeltaForest.Protocol.Note
import DeltaForest.Wire.Envelope

/-!
# Unions, flat records and envelopes that come back

Three shapes hold fields that say how other fields are to be read: a union has a tag, a flat record
holds the fields of a union among its own, and an envelope has a word for its kind. Reading them
first sorts the fields by name, which finds those that were written as long as no name stands on
both sides. In messages all flat records look alike (`Fields.flat`): a field of their own in front,
then the kind and its fields, and the note behind.
-/

namespace DeltaForest

open Fields

variable {α β : Type} {room : Nat} {src : Source} {fields : List (String × Data)}

/-- Sorting takes out what stands around the rest. -/
theorem partition_around {α : Type} {p : α → Bool} {front middle back : List α}
    (hfront : ∀ x ∈ front, p x = true) (hmiddle : ∀ x ∈ middle, p x = false)
    (hback : ∀ x ∈ back, p x = true) :
    (front ++ middle ++ back).partition p = (front ++ back, middle) := by
  have hnone : front.filter (!p ·) = [] ∧ back.filter (!p ·) = [] :=
    ⟨List.filter_eq_nil_iff.2 fun x hx => by simp [hfront x hx],
      List.filter_eq_nil_iff.2 fun x hx => by simp [hback x hx]⟩
  have hmid : middle.filter p = [] := List.filter_eq_nil_iff.2 fun x hx => by simp [hmiddle x hx]
  have hall : middle.filter (!p ·) = middle :=
    List.filter_eq_self.2 fun x hx => by simp [hmiddle x hx]
  rw [List.partition_eq_filter_filter]
  simp only [Function.comp_def, List.filter_append, List.filter_eq_self.2 hfront,
    List.filter_eq_self.2 hback, hmid, hall, hnone.1, hnone.2, List.append_nil, List.nil_append]

/-- Sorting takes out what stands in front of the rest. -/
theorem partition_cons {α : Type} {p : α → Bool} {x : α} {rest : List α} (hx : p x = true)
    (hrest : ∀ y ∈ rest, p y = false) : (x :: rest).partition p = ([x], rest) := by
  have hsort := partition_around (List.forall_mem_singleton.2 hx) hrest (List.forall_mem_nil _)
  rwa [List.append_nil] at hsort

theorem all_labels {p : Label × Data → Bool} (h : ∀ f ∈ fields, p (.name f.1, f.2) = true) :
    (labels fields).all p = true :=
  List.all_eq_true.2 (List.forall_mem_map.2 h)

theorem all_entries {p : Data × Data → Bool} (h : ∀ f ∈ fields, p (.text f.1, f.2) = true) :
    (Data.entries fields).all p = true :=
  List.all_eq_true.2 (List.forall_mem_map.2 h)

theorem reached_object : (Data.object fields).reached src = .object fields := by
  cases src <;> rfl

/-! ## By a tag -/

/-- Fields are read by the kind that the first of them gives. -/
theorem kindOf?_labels {tag kind : String} {kinds : List String} {reader : String → Reader α}
    {a : α} (hkind : kind ∈ kinds) (htag : tag ∉ names fields)
    (hwhole : (reader kind).whole .part (labelled (labels fields)) = some a) :
    kindOf? tag kinds reader (labels ((tag, .text kind) :: fields)) = some a := by
  have hamong : (Label.ofData .part (.text kind)).bind (Label.among kinds) = some kind := by
    show (if kind ∈ kinds then some kind else none) = _
    rw [if_pos hkind]
  rw [kindOf?, labels_cons, partition_cons]
  · simp only [hamong, Option.bind_some, hwhole]
  · exact beq_self_eq_true _
  · refine List.forall_mem_map.2 fun f hf => beq_eq_false_iff_ne.2 fun heq => htag ?_
    exact List.mem_map.2 ⟨f, hf, Label.name.inj heq⟩

/-- A union gives its tag and its other fields. -/
theorem union?_object {tag : String} {d : Data} (htag : tag ∉ names fields)
    (hshort : ∀ name ∈ names fields, isShort name)
    (hportable : ∀ f ∈ fields, f.2.Portable room) (hsrc : src.Holds (room + 1)) :
    (Data.object ((tag, d) :: fields)).union? src tag = some (d, labelled (labels fields)) := by
  rw [Data.object_eq, Data.union?, Data.entries_cons, partition_cons]
  · simp only
    rw [all_entries, if_pos rfl, labels?_entries hshort, Option.map_some]
    refine fun f hf => Bool.and_eq_true_iff.2 ⟨?_, ?_⟩
    · exact Source.takesApart_of_portable hsrc.inside (.text f.1)
    · exact Source.takesApart_of_portable hsrc.inside (hportable f hf)
  · exact beq_self_eq_true tag
  · refine List.forall_mem_map.2 fun f hf => beq_eq_false_iff_ne.2 fun heq => htag ?_
    exact List.mem_map.2 ⟨f, hf, heq⟩

/-! ## Flat records -/

/-- The fields of a flat record are told apart by name. -/
theorem flatFields?_labels {own : List String} {r : Reader α} {a : α} {b : β}
    {kind : List (Label × Data) → Option β} {front back : List (String × Data)}
    (hown : ∀ name ∈ names (front ++ back), name ∈ own)
    (hothers : ∀ name ∈ names fields, name ∉ own)
    (hportable : ∀ f ∈ fields, f.2.Portable room) (hsrc : src.Holds room)
    (hmine : r.whole src (labelled (labels (front ++ back))) = some a)
    (hkind : kind (labels fields) = some b) :
    Data.flatFields? src (labels (front ++ fields ++ back)) own r kind = some (a, b) := by
  -- The names of the outer fields are what tells them from the others.
  have hmem {f : String × Data} (hf : f ∈ front ++ back) :
      (own.any fun s => Label.name f.1 == .name s) = true := by
    refine List.any_eq_true.2 ⟨f.1, hown _ (List.mem_map_of_mem hf), beq_self_eq_true _⟩
  rw [Data.flatFields?, labels_append, labels_append, partition_around, ← labels_append]
  · simp only
    rw [all_labels fun f hf => Source.takesApart_of_portable hsrc (hportable f hf), hmine, hkind]
    rfl
  · exact List.forall_mem_map.2 fun f hf => hmem (List.mem_append_left _ hf)
  · refine List.forall_mem_map.2 fun f hf => List.any_eq_false.2 fun s hs heq => ?_
    have hname : f.1 = s := Label.name.inj (beq_iff_eq.1 heq)
    exact hothers _ (List.mem_map_of_mem hf) (hname ▸ hs)
  · exact List.forall_mem_map.2 fun f hf => hmem (List.mem_append_right _ hf)

/-! ## Envelopes -/

/-- An envelope with the word in front gives the word and the body. -/
theorem envelope?_object {names : EnvelopeNames} {word : String} {body : Data}
    (hword : word ∈ names.words) (hne : names.kind ≠ names.body) :
    (Data.object [(names.kind, .text word), (names.body, body)]).envelope? names =
      some ⟨word, .json, body⟩ := by
  -- The kind is read before the body, as it was written.
  have hkind : Envelope.Found.jsonField? names .nothing (.name names.kind, .text word) =
      some (.kind word) := by
    rw [Envelope.Found.jsonField?, if_pos rfl]
    show ((Label.name word).among names.words).bind Envelope.Found.nothing.withKind? = _
    rw [Label.among, if_pos hword]
    rfl
  have hbody : Envelope.Found.jsonField? names (.kind word) (.name names.body, body) =
      some (.both ⟨word, .json, body⟩) := by
    rw [Envelope.Found.jsonField?, if_neg (by simpa using hne.symm), if_pos rfl]
    rfl
  show (List.foldlM (Envelope.Found.jsonField? names) .nothing
    [(.name names.kind, .text word), (.name names.body, body)]).bind _ = _
  rw [List.foldlM_cons, hkind]
  show (List.foldlM (Envelope.Found.jsonField? names) (.kind word)
    [(.name names.body, body)]).bind _ = _
  rw [List.foldlM_cons, hbody]
  rfl

end DeltaForest
