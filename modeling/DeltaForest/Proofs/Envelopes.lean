import DeltaForest.Proofs.Items
import DeltaForest.Proofs.Returning
import DeltaForest.Wire.Envelope

/-!
# Envelopes that come back as bytes

An envelope in CBOR is read from its bytes, field by field. What spells an envelope with the word
for the kind in front is read as that envelope (`Cbor.envelope?_of_spells`), and a list of such
envelopes is read one by one (`Cbor.envelopes?_of_spells`); what follows is left alone.
-/

namespace DeltaForest

open Data Fields

/-- The tree of an envelope with the word for its kind in front. -/
def EnvelopeNames.tree (names : EnvelopeNames) (word : String) (body : Data) : Data :=
  .object [(names.kind, .text word), (names.body, body)]

/-- Names that can be read, and told apart. -/
structure EnvelopeNames.Legible (names : EnvelopeNames) : Prop where
  kind : isShort names.kind
  body : isShort names.body
  ne : names.kind ≠ names.body
  words : ∀ word ∈ names.words, isShort word

theorem Data.object_injective {fields fields' : List (String × Data)}
    (h : object fields = object fields') : fields = fields' := by
  refine (List.map_inj_right ?_).1 (Data.map.inj h)
  rintro ⟨name, d⟩ ⟨name', d'⟩ heq
  cases heq
  rfl

/-- A map from names starts with a head and its fields. -/
theorem Data.Spells.of_object {isOpen : List (Data × Data) → Bool}
    {fields : List (String × Data)} {bytes : List UInt8}
    (h : (object fields).Spells isOpen bytes) :
    ∃ front middle, SpellFields isOpen fields middle ∧
      ((Cbor.Head.Spelt (.map (some fields.length)) front ∧ bytes = front ++ middle) ∨
        ∃ stop, Cbor.Head.Spelt (.map none) front ∧ Cbor.Head.Spelt .stop stop ∧
          bytes = front ++ middle ++ stop) := by
  -- A map says its length in front or is closed by a stop.
  generalize hd : object fields = d at h
  rcases h
  case closed h bytes fields' _ hfront hfields =>
    cases object_injective hd
    exact ⟨h, bytes, hfields, .inl ⟨hfront, rfl⟩⟩
  case opened h bytes stop fields' _ hfront hfields hstop =>
    cases object_injective hd
    exact ⟨h, bytes, hfields, .inr ⟨stop, hfront, hstop, rfl⟩⟩
  all_goals cases hd

namespace Cbor

variable {isOpen : List (Data × Data) → Bool} {names : EnvelopeNames} {src : Source}
variable {bytes more rest : List UInt8} {x : Head} {s : String} {found : Envelope.Found}

/-! ## At the front -/

/-- Tags are passed over. -/
theorem headBehindTags?_eq (bytes : List UInt8) : headBehindTags? bytes =
    (head? bytes).bind fun (x, rest) =>
      match x with
      | .tag _ => headBehindTags? rest
      | x => some (x, rest) := by
  rw [headBehindTags?]
  split
  · next hfront => rw [hfront, Option.bind_some]
  · next hfront =>
    rcases hhead : head? bytes with _ | ⟨x, rest⟩
    · rfl
    · cases x <;> first | rfl | exact (hfront _ _ hhead).elim

theorem headBehindTags?_of_spelt (h : x.Spelt bytes) (hx : ∀ n, x ≠ .tag n) :
    headBehindTags? (bytes ++ rest) = some (x, rest) := by
  rw [headBehindTags?_eq, head?_append h.1, Option.bind_some]
  cases x <;> first | rfl | exact absurd rfl (hx _)

theorem label?_of_spells (h : (Data.text s).Spells isOpen bytes) (hs : isShort s) :
    label? (bytes ++ rest) = some (.name s, rest) := by
  rw [label?, h.item?, Option.bind_some]
  show Option.map _ (if s.utf8ByteSize ≤ Label.cborLimit then some (Label.name s) else none) = _
  rw [if_pos (of_decide_eq_true hs)]
  rfl

/-- A text starts with a head of its own. -/
theorem exists_text_head (h : (Data.text s).Spells isOpen bytes) :
    ∃ front, Head.Spelt (.text (some (utf8 s).length)) front ∧ bytes = front ++ utf8 s := by
  cases h with
  | text h => exact ⟨_, h, rfl⟩

theorem choice?_of_spells {words : List String} (h : (Data.text s).Spells isOpen bytes)
    (hs : isShort s) (hmem : s ∈ words) : choice? words (bytes ++ rest) = some (s, rest) := by
  obtain ⟨front, hfront, rfl⟩ := exists_text_head h
  have hhead : headBehindTags? (front ++ utf8 s ++ rest) =
      some (.text (some (utf8 s).length), utf8 s ++ rest) := by
    rw [List.append_assoc]
    exact headBehindTags?_of_spelt hfront fun _ => Head.noConfusion
  rw [choice?, hhead]
  simp only [label?_of_spells h hs, Option.bind_some, Label.among, if_pos hmem, Option.map_some]

/-! ## Fields -/

/-- The word for the kind is found in its field. -/
theorem envelopeField?_kind {front : List UInt8} (hnames : names.Legible)
    (hfront : (Data.text names.kind).Spells isOpen front)
    (h : (Data.text s).Spells isOpen bytes) (hmem : s ∈ names.words) :
    envelopeField? names src .nothing (front ++ bytes ++ rest) = some (.kind s, rest) := by
  rw [List.append_assoc, envelopeField?, label?_of_spells hfront hnames.kind]
  simp only [Option.bind_eq_bind, Option.bind_some, if_pos,
    choice?_of_spells h (hnames.words s hmem) hmem]
  rfl

/-- The body is found in its field. -/
theorem envelopeField?_body {front : List UInt8} {body : Data} (hnames : names.Legible)
    (hfront : (Data.text names.body).Spells isOpen front) (h : body.Spells isOpen bytes) :
    envelopeField? names src (.kind s) (front ++ bytes ++ rest) =
      some (.both ⟨s, src, body⟩, rest) := by
  rw [List.append_assoc, envelopeField?, label?_of_spells hfront hnames.body]
  have hne : Label.name names.body ≠ .name names.kind := fun heq =>
    hnames.ne (Label.name.inj heq).symm
  simp only [Option.bind_eq_bind, Option.bind_some, if_neg hne, h.item?, if_true]
  rfl

/-! ## Until the stop code -/

section UntilStop

variable {σ : Type} {step : σ → List UInt8 → Option (σ × List UInt8)} {t t' : σ}

/-- Another step is taken where no stop code stands. -/
theorem untilStop?_of_ne (hne : ∀ rest, head? bytes ≠ some (.stop, rest))
    (hstep : step t bytes = some (t', rest)) (hlt : rest.length < bytes.length) :
    untilStop? step t bytes = untilStop? step t' rest := by
  rw [untilStop?]
  split
  · next rest' hstop => exact absurd hstop (hne rest')
  · rw [hstep]
    exact if_pos hlt

theorem untilStop?_step {y : Head} (hhead : head? bytes = some (y, more)) (hy : y ≠ .stop)
    (hstep : step t bytes = some (t', rest)) (hlt : rest.length < bytes.length) :
    untilStop? step t bytes = untilStop? step t' rest := by
  refine untilStop?_of_ne (fun rest' hstop => ?_) hstep hlt
  rw [hhead] at hstop
  cases hstop
  exact hy rfl

theorem untilStop?_stop (h : Head.Spelt .stop bytes) :
    untilStop? step t (bytes ++ rest) = some (t, rest) := by
  have hhead : head? (bytes ++ rest) = some (.stop, rest) := head?_append h.1
  rw [untilStop?, hhead]

end UntilStop

/-- A field starts with the head of its name, and there is something in front of what follows. -/
theorem field_front {name : String} {front : List UInt8}
    (h : (Data.text name).Spells isOpen front) (bytes rest : List UInt8) :
    (∃ n more, head? (front ++ bytes ++ rest) = some (.text n, more)) ∧
      rest.length < (front ++ bytes ++ rest).length := by
  obtain ⟨head, hhead, rfl⟩ := exists_text_head h
  constructor
  · rw [List.append_assoc, List.append_assoc]
    exact ⟨_, _, head?_append hhead.1⟩
  · have hpos : 0 < head.length := List.length_pos_iff.2 fun hnil => by
      rw [hnil] at hhead
      cases hhead.1
    simp only [List.length_append]
    omega

/-! ## Envelopes -/

/-- What spells an envelope with the word in front is read as the envelope. -/
theorem envelope?_of_spells {word : String} {body : Data} (hnames : names.Legible)
    (hword : word ∈ names.words) (h : (names.tree word body).Spells isOpen bytes) :
    envelope? names src (bytes ++ rest) = some (⟨word, src.inside, body⟩, rest) := by
  obtain ⟨front, middle, hfields, hcase⟩ := h.of_object
  cases hfields with
  | @cons _ _ _ kindBytes wordBytes _ hkind hw hmore =>
  cases hmore with
  | @cons _ _ _ nameBytes bodyBytes _ hbody hb hnil =>
  cases hnil
  -- The first field tells the kind, the second brings the body.
  have hfirst (rest : List UInt8) : envelopeField? names src.inside .nothing
      (kindBytes ++ wordBytes ++ rest) = some (.kind word, rest) :=
    envelopeField?_kind hnames hkind hw hword
  have hsecond (rest : List UInt8) : envelopeField? names src.inside (.kind word)
      (nameBytes ++ bodyBytes ++ rest) = some (.both ⟨word, src.inside, body⟩, rest) :=
    envelopeField?_body hnames hbody hb
  -- The reader takes fields as the head says how many, or until the stop.
  rcases hcase with ⟨hfront, rfl⟩ | ⟨stop, hfront, hstop, rfl⟩
  · rw [List.append_nil, List.append_assoc, List.append_assoc (kindBytes ++ wordBytes), envelope?,
      headBehindTags?_of_spelt hfront fun _ => Head.noConfusion]
    simp only [forLength?, List.length_cons, List.length_nil, times?, hfirst, hsecond,
      Option.bind_some]
    rfl
  · rw [List.append_nil, List.append_assoc, List.append_assoc,
      List.append_assoc (kindBytes ++ wordBytes), envelope?,
      headBehindTags?_of_spelt hfront fun _ => Head.noConfusion]
    obtain ⟨⟨n, _, hhead⟩, hlt⟩ :=
      field_front hkind wordBytes (nameBytes ++ bodyBytes ++ (stop ++ rest))
    obtain ⟨⟨n', _, hhead'⟩, hlt'⟩ := field_front hbody bodyBytes (stop ++ rest)
    dsimp only [forLength?]
    rw [untilStop?_step hhead (fun heq => Head.noConfusion heq) (hfirst _) hlt,
      untilStop?_step hhead' (fun heq => Head.noConfusion heq) (hsecond _) hlt',
      untilStop?_stop hstop]
    rfl

/-- What spells envelopes, one behind the other, is read as so many of them. -/
theorem times?_envelopes {es : List (String × Data)} (hnames : names.Legible)
    (hwords : ∀ e ∈ es, e.1 ∈ names.words)
    (h : SpellItems isOpen (es.map fun e => names.tree e.1 e.2) bytes) (done : List Envelope) :
    times? (fun es bytes => (envelope? names src bytes).map fun (e, rest) => (e :: es, rest))
      es.length done (bytes ++ rest) =
        some ((es.map fun e => ⟨e.1, src.inside, e.2⟩).reverse ++ done, rest) := by
  -- The envelopes read are gathered in reverse.
  induction es generalizing bytes done with
  | nil =>
    cases h
    rfl
  | cons e es ih =>
    cases h with
    | @cons _ _ front more hfront hmore =>
    obtain ⟨hword, hrest⟩ := List.forall_mem_cons.1 hwords
    rw [List.append_assoc, List.length_cons, times?,
      envelope?_of_spells hnames hword hfront, Option.map_some, Option.bind_some]
    dsimp only
    rw [ih hrest hmore, List.map_cons, List.reverse_cons, List.append_assoc]
    rfl

/-- What spells a list of envelopes is read as the envelopes. -/
theorem envelopes?_of_spells {es : List (String × Data)} (hnames : names.Legible)
    (hwords : ∀ e ∈ es, e.1 ∈ names.words)
    (h : (Data.list (es.map fun e => names.tree e.1 e.2)).Spells isOpen bytes) :
    envelopes? names (bytes ++ rest) = some (es.map fun e => ⟨e.1, .cbor 2, e.2⟩) := by
  cases h with
  | @list front middle _ hfront hitems =>
  rw [List.append_assoc, envelopes?, headBehindTags?_of_spelt hfront fun _ => Head.noConfusion]
  dsimp only [forLength?]
  rw [List.length_map, times?_envelopes hnames hwords hitems, Option.map_some, List.append_nil,
    List.reverse_reverse]
  rfl

end Cbor

end DeltaForest
