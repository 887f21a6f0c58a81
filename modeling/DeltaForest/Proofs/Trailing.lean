import DeltaForest.Proofs.Lines

/-!
# What stands behind the messages of a file

Bytes of CBOR are read item by item from the front, and what follows an item is left. None of the
readers looks at it (`Cbor.Leaves`): what has been read once is read as the same if more bytes are
put behind. A single reader may hand on what it has left, but behind the list of messages nobody
reads on. So a file that begins with such a list is understood, whatever else is in it
(`MessageFile.decode_cbor_append`). Where two files have been put together, the messages of the
second one are lost, and nothing tells that they are (`Examples.exists_lost`).

A file of JSON lines is read to its end. The bytes behind some lines have to be lines of messages as
well, or the file is refused (`MessageFile.decode_json_append`).
-/

namespace DeltaForest

namespace Cbor

/-! ## Readers -/

/-- A reader that does not look at what follows. -/
def Leaves {α : Type} (read : List UInt8 → Option (α × List UInt8)) : Prop :=
  ∀ ⦃bytes a rest⦄, read bytes = some (a, rest) →
    ∀ more, read (bytes ++ more) = some (a, rest ++ more)

namespace Leaves

variable {α β : Type} {read : List UInt8 → Option (α × List UInt8)}

theorem bind {next : α → List UInt8 → Option (β × List UInt8)} (h : Leaves read)
    (h' : ∀ a, Leaves (next a)) :
    Leaves fun bytes => (read bytes).bind fun (a, rest) => next a rest := by
  intro bytes b rest hb more
  obtain ⟨⟨a, behind⟩, ha, hnext⟩ := Option.bind_eq_some_iff.1 hb
  dsimp only at hnext ⊢
  rw [h ha more, Option.bind_some]
  exact h' a hnext more

/-- What is read may be refused, or be made something else. -/
theorem filterMap {f : α → Option β} (h : Leaves read) :
    Leaves fun bytes => (read bytes).bind fun (a, rest) => (f a).map (·, rest) := by
  have hnext (a : α) : Leaves fun rest => (f a).map (·, rest) := by
    intro bytes b rest hb more
    obtain ⟨b', hb', heq⟩ := Option.map_eq_some_iff.1 hb
    cases heq
    dsimp only
    rw [hb', Option.map_some]
  exact h.bind hnext

theorem map {f : α → β} (h : Leaves read) :
    Leaves fun bytes => (read bytes).map fun (a, rest) => (f a, rest) := by
  intro bytes b rest hb more
  obtain ⟨⟨a, behind⟩, ha, heq⟩ := Option.map_eq_some_iff.1 hb
  cases heq
  dsimp only
  rw [h ha more, Option.map_some]

theorem pure (a : α) : Leaves fun bytes => some (a, bytes) := by
  rintro bytes a' rest ⟨⟩ more
  rfl

/-- What is there may be something without any bytes being read. -/
theorem ofOption (found : Option α) : Leaves fun bytes => found.map (·, bytes) := by
  cases found with
  | none => rintro bytes a rest ⟨⟩
  | some a => exact pure a

end Leaves

/-! ## Items -/

theorem leaves_head : Leaves head? := fun _ _ _ h _ => head?_append h

/-- So many bytes are taken from the front. -/
theorem leaves_take (n : Nat) : Leaves (take? n) := by
  intro bytes front rest h more
  rw [take?] at h ⊢
  split at h
  · next hle =>
    cases h
    rw [if_pos (by rw [List.length_append]; omega), List.take_append_of_le_length hle,
      List.drop_append_of_le_length hle]
  · cases h

/-- The pieces of a text are read one behind the other, each by its own length. -/
theorem leaves_pieces {α : Type} (isText : Bool) (add : α → List UInt8 → Option α) (nesting : Nat)
    (collected : α) : Leaves (pieces? isText add nesting collected) := by
  intro bytes a rest h more
  fun_induction pieces? isText add nesting collected bytes
  all_goals
    rw [pieces?]
    grind [leaves_head, leaves_take, Leaves]

/-- A step takes at most the bytes of one text. -/
theorem leaves_step (stack : List Frame) (x : Head) : Leaves (State.step stack x) := by
  intro bytes s rest h more
  cases x with
  | nat | negative | real | tag | list | map =>
    cases h
    rfl
  | simple n =>
    obtain ⟨d, hd, heq⟩ := Option.map_eq_some_iff.1 h
    cases heq
    rw [State.step, hd, Option.map_some]
  | stop => exact Leaves.ofOption (State.stop stack) h more
  -- The bytes of a string of bytes or of a text come behind the head, in one piece or in several.
  | bytes length =>
    cases length with
    | none =>
      exact (leaves_pieces _ _ _ _).map (f := fun b => State.give stack (.pieces (.bytes b))) h more
    | some n => exact (leaves_take n).map (f := fun b => State.give stack (.bytes b)) h more
  | text length =>
    cases length with
    | none =>
      exact (leaves_pieces _ _ _ _).map (f := fun s => State.give stack (.pieces (.text s))) h more
    | some n =>
      rw [State.step] at h ⊢
      split at h
      · cases h
      · next front behind hfront =>
        obtain ⟨text, htext, heq⟩ := Option.map_eq_some_iff.1 h
        cases heq
        rw [leaves_take n hfront more]
        exact Option.map_eq_some_iff.2 ⟨text, htext, rfl⟩

theorem leaves_run (s : State) : Leaves s.run := by
  intro bytes d rest h more
  fun_induction State.run s bytes with
  | case1 bytes d' =>
    cases h
    rw [State.run]
  | case2 bytes stack hfront => cases h
  | case3 bytes stack x behind hfront hstep => cases h
  | case4 bytes stack x behind hfront s' rest' hstep ih =>
    rw [Data.run_reading, leaves_head hfront more, Option.bind_some]
    dsimp only
    rw [leaves_step stack x hstep more, Option.bind_some]
    exact ih h

theorem leaves_item : Leaves item? := leaves_run _

/-! ## Envelopes -/

/-- Tags are read up to the first head that is none. -/
theorem leaves_headBehindTags : Leaves headBehindTags? := by
  intro bytes x rest h more
  fun_induction headBehindTags? bytes with
  | case1 bytes n behind hfront ih =>
    rw [headBehindTags?_eq, leaves_head hfront more]
    exact ih h
  | case2 bytes hfront =>
    rw [headBehindTags?_eq, leaves_head h more, Option.bind_some]
    cases x <;> first | rfl | exact (hfront _ _ h).elim

theorem leaves_label : Leaves label? := leaves_item.filterMap

theorem leaves_choice (words : List String) : Leaves (choice? words) := by
  intro bytes word rest h more
  rw [choice?] at h ⊢
  split at h
  · next behind hhead =>
    rw [leaves_headBehindTags hhead more]
    exact leaves_label.filterMap h more
  · next behind hhead =>
    rw [leaves_headBehindTags hhead more]
    exact leaves_label.filterMap h more
  · cases h

/-- A field of an envelope has a label, and then the kind or an item. -/
theorem leaves_envelopeField (names : EnvelopeNames) (src : Source) (found : Envelope.Found) :
    Leaves (envelopeField? names src found) := by
  intro bytes found' rest h more
  simp only [envelopeField?, Option.bind_eq_bind, Option.bind_eq_some_iff, Prod.exists] at h ⊢
  obtain ⟨label, behind, hlabel, h⟩ := h
  refine ⟨label, behind ++ more, leaves_label hlabel more, ?_⟩
  -- The label tells whether the word for the kind, the body or something to be passed over comes
  -- next.
  split at h
  · next hkind =>
    rw [if_pos hkind]
    simp only [Option.bind_eq_some_iff, Prod.exists] at h ⊢
    obtain ⟨word, behind', hword, found'', hfound, heq⟩ := h
    cases heq
    exact ⟨word, _, leaves_choice _ hword more, _, hfound, rfl⟩
  · next hkind =>
    rw [if_neg hkind]
    simp only [Option.bind_eq_some_iff, Prod.exists] at h ⊢
    obtain ⟨d, behind', hd, h⟩ := h
    refine ⟨d, _, leaves_item hd more, ?_⟩
    split at h
    · next hbody =>
      obtain ⟨found'', hfound, heq⟩ := Option.bind_eq_some_iff.1 h
      cases heq
      rw [if_pos hbody]
      exact Option.bind_eq_some_iff.2 ⟨_, hfound, rfl⟩
    · next hbody =>
      rw [if_neg hbody]
      split at h
      · next hpass =>
        cases h
        exact if_pos hpass
      · cases h

section Steps

variable {σ : Type} {step : σ → List UInt8 → Option (σ × List UInt8)}

/-- A step that leaves the rest does so any number of times. -/
theorem leaves_times (h : ∀ s, Leaves (step s)) (n : Nat) (s : σ) : Leaves (times? step n s) := by
  induction n generalizing s with
  | zero => exact .pure s
  | succ n ih => exact (h s).bind ih

/-- A stop code is one byte. -/
theorem of?_eq_stop {major minor : Nat} {a : Option Nat} (h : Head.of? major minor a = some .stop) :
    a = none := by
  unfold Head.of? at h
  split at h
  case h_8 => rfl
  case h_9 => split at h <;> cases h
  all_goals cases h

/-- A stop code that is seen with more bytes is seen without them. -/
theorem exists_stop_of_append {bytes more rest : List UInt8} (hne : bytes ≠ [])
    (h : head? (bytes ++ more) = some (.stop, rest)) :
    ∃ rest', head? bytes = some (.stop, rest') := by
  obtain ⟨b, bytes, rfl⟩ := List.exists_cons_of_ne_nil hne
  rw [List.cons_append, head?] at h
  split at h
  · cases h
  · next a behind hargument =>
    obtain ⟨x, hx, heq⟩ := Option.map_eq_some_iff.1 h
    cases heq
    obtain rfl := of?_eq_stop hx
    -- The argument is left open, which is told by the first byte alone.
    have hopen : argument? (b.toNat % 32) bytes = some (none, bytes) := by
      rw [argument?] at hargument ⊢
      split_ifs at hargument ⊢
      · cases hargument
      · obtain ⟨_, _, heq⟩ := Option.map_eq_some_iff.1 hargument
        cases heq
      · rfl
    exact ⟨bytes, by rw [head?, hopen]; simp only [hx, Option.map_some]⟩

/-- Steps up to the mark of the end leave what is behind the mark. -/
theorem leaves_untilStop (h : ∀ s, Leaves (step s)) (s : σ) : Leaves (untilStop? step s) := by
  intro bytes s' rest hs more
  fun_induction untilStop? step s bytes with
  | case1 s bytes behind hstop =>
    cases hs
    rw [untilStop?, leaves_head hstop more]
  | case2 s bytes s'' behind hstep hlt hne ih =>
    have hbytes : bytes ≠ [] := List.ne_nil_of_length_pos (Nat.zero_lt_of_lt hlt)
    rw [untilStop?_of_ne (fun rest' hstop => ?_) (h s hstep more) (by simpa using hlt)]
    · exact ih hs
    · obtain ⟨rest'', hstop'⟩ := exists_stop_of_append hbytes hstop
      exact hne rest'' hstop'
  | case3 => cases hs
  | case4 => cases hs

/-- A number of steps that is told in front, or steps up to the mark, leave the rest. -/
theorem leaves_forLength (h : ∀ s, Leaves (step s)) (s : σ) (length : Option Nat) :
    Leaves (forLength? step s length) := by
  cases length with
  | none => exact leaves_untilStop h s
  | some n => exact leaves_times h n s

end Steps

/-- An envelope is read from the front like any item. -/
theorem leaves_envelope (names : EnvelopeNames) (src : Source) : Leaves (envelope? names src) := by
  intro bytes e rest h more
  rw [envelope?] at h ⊢
  split at h
  · next length behind hhead =>
    rw [leaves_headBehindTags hhead more]
    exact (leaves_forLength (leaves_envelopeField names _) _ length).filterMap h more
  · cases h

/-- What follows the list of envelopes at the front does not matter. -/
theorem envelopes?_append {names : EnvelopeNames} {bytes : List UInt8} {es : List Envelope}
    (h : envelopes? names bytes = some es) (more : List UInt8) :
    envelopes? names (bytes ++ more) = some es := by
  rw [envelopes?] at h ⊢
  split at h
  · next length behind hhead =>
    rw [leaves_headBehindTags hhead more]
    -- Envelopes are read as many as the head says, or up to the mark of the end.
    obtain ⟨⟨found, rest⟩, hfound, heq⟩ := Option.map_eq_some_iff.1 h
    have hstep (es : List Envelope) := (leaves_envelope names (.cbor 1)).map (f := (· :: es))
    exact Option.map_eq_some_iff.2 ⟨_, leaves_forLength hstep [] length hfound more, heq⟩
  · next length behind hhead =>
    rw [leaves_headBehindTags hhead more]
    dsimp only
    split at h
    · next hitems =>
      -- What is no list of envelopes is read as one item, and refused or empty as before.
      obtain ⟨⟨d, rest⟩, hd, hnone⟩ := Option.bind_eq_some_iff.1 hitems
      rw [leaves_item hd more, Option.bind_some]
      dsimp only at hnone ⊢
      rw [hnone]
      exact h
    · cases h
  · cases h

end Cbor

namespace MessageFile

open Protocol Text

variable {messages all : List Message} {bytes : List UInt8}

/-! ## CBOR -/

/-- A file of CBOR that is understood is understood as the same with anything behind it. -/
theorem decode_cbor_append (h : decode .cbor bytes = .ok all) (more : List UInt8) :
    decode .cbor (bytes ++ more) = .ok all := by
  rw [decode] at h ⊢
  split at h
  · next messages hmessages =>
    cases h
    obtain ⟨es, hes, hread⟩ := Option.bind_eq_some_iff.1 hmessages
    rw [Message.listOfCbor?, Cbor.envelopes?_append hes more, Option.bind_some, hread]
  · cases h

/-! ## Texts -/

/-- Behind whole characters the bytes are whole characters if all are. -/
theorem isValidUTF8_encode_append (cs : List Char) (rest : ByteArray) :
    (cs.utf8Encode ++ rest).IsValidUTF8 ↔ rest.IsValidUTF8 := by
  induction cs with
  | nil => rw [List.utf8Encode_nil, ByteArray.empty_append]
  | cons c cs ih =>
    rw [← List.singleton_append, List.utf8Encode_append, ByteArray.append_assoc,
      ByteArray.isValidUTF8_utf8Encode_singleton_append_iff, ih]

/-- What stands behind a text in a text is a text. -/
theorem exists_of_utf8_append {s t : String} (h : Data.utf8 t = Data.utf8 s ++ bytes) :
    ∃ rest, t = s ++ rest ∧ Data.utf8 rest = bytes := by
  have hbytes : t.toByteArray = s.toByteArray ++ ⟨bytes.toArray⟩ := by
    refine ByteArray.ext (Array.toList_inj.1 ?_)
    rw [ByteArray.data_append, Array.toList_append]
    exact h
  have hvalid : (⟨bytes.toArray⟩ : ByteArray).IsValidUTF8 := by
    obtain ⟨cs, hcs⟩ := s.isValidUTF8
    rw [← isValidUTF8_encode_append cs, ← hcs, ← hbytes]
    exact t.isValidUTF8
  refine ⟨.ofByteArray _ hvalid, ?_, rfl⟩
  rw [← String.toByteArray_inj, String.toByteArray_append, hbytes]

/-- The bytes of a text that has been read are the bytes that it has been read from. -/
theorem utf8_of_utf8? {s : String} (h : Cbor.utf8? bytes = some s) : Data.utf8 s = bytes := by
  rw [Cbor.utf8?, String.fromUTF8?] at h
  split at h
  · cases h
    rfl
  · cases h

/-- Bytes behind a text are read as those of a text, or not at all. -/
theorem utf8?_append (s : String) (bytes : List UInt8) :
    Cbor.utf8? (Data.utf8 s ++ bytes) = (Cbor.utf8? bytes).map (s ++ ·) := by
  cases hbytes : Cbor.utf8? bytes with
  | some rest =>
    rw [← utf8_of_utf8? hbytes, ← utf8_append, Data.utf8?_utf8, Option.map_some]
  | none =>
    refine Option.eq_none_iff_forall_ne_some.2 fun t ht => ?_
    obtain ⟨rest, -, hrest⟩ := exists_of_utf8_append (utf8_of_utf8? ht)
    rw [← hrest, Data.utf8?_utf8] at hbytes
    cases hbytes

/-! ## JSON lines -/

/-- The number of the first line matters to complaints only. -/
theorem decodeLines_zipIdx {lines : List String} {k : Nat} (k' : Nat)
    (h : decodeLines (lines.zipIdx k) = .ok all) : decodeLines (lines.zipIdx k') = .ok all := by
  -- The number of a line is told in troubles only.
  induction lines generalizing k k' all with
  | nil => exact h
  | cons line lines ih =>
    rw [List.zipIdx_cons, decodeLines] at h ⊢
    split at h
    · next hblank =>
      rw [if_pos hblank]
      exact ih _ h
    · next hblank =>
      rw [if_neg hblank]
      split at h
      · next m hm =>
        cases hrest : decodeLines (lines.zipIdx (k + 1)) with
        | error trouble => rw [hrest] at h; cases h
        | ok rest =>
          rw [ih (k' + 1) hrest, ← hrest]
          exact h
      · cases h

/-- The messages on the first lines come first, whatever follows. -/
theorem decodeLines_toLines_append (h : ∀ m ∈ messages, ∀ i ∈ m.indices, i < UInt64.size)
    (text : String) (k : Nat) :
    decodeLines ((lines (toLines messages ++ text)).zipIdx k) =
      (decodeLines ((lines text).zipIdx (k + messages.length))).map (messages ++ ·) := by
  induction messages generalizing k with
  | nil =>
    have htext : toLines [] ++ text = text := String.empty_append
    rw [htext, List.length_nil, Nat.add_zero]
    cases decodeLines ((lines text).zipIdx k) <;> rfl
  | cons m messages ih =>
    obtain ⟨hm, hmessages⟩ := List.forall_mem_cons.1 h
    have hclean := isClean_toJson hm
    -- The first line is read as the first message, and the others have numbers one higher.
    rw [toLines_cons, String.append_assoc, lines_append hclean.notMem, List.zipIdx_cons,
      decodeLines, hclean.dropReturn, String.ofList_toList,
      if_neg (by simp [not_isBlankLine_toJson]), ofJson?_line hm]
    dsimp only
    rw [ih hmessages, List.length_cons, Nat.add_right_comm, Nat.add_assoc]
    cases decodeLines ((lines text).zipIdx (k + (messages.length + 1))) <;> rfl

/-- A file of JSON lines is read to its end. -/
theorem decode_json_append (h : ∀ m ∈ messages, ∀ i ∈ m.indices, i < UInt64.size)
    (more : List UInt8) : decode .json (encode .json messages ++ more) = .ok all ↔
      ∃ others, decode .json more = .ok others ∧ all = messages ++ others := by
  rw [decode, encode, decode, utf8?_append]
  cases Cbor.utf8? more with
  | none => simp
  | some text =>
    rw [Option.map_some]
    dsimp only
    -- Behind the lines of the messages the others start with a higher number.
    rw [decodeLines_toLines_append h text 1]
    constructor
    · intro hall
      cases hothers : decodeLines ((lines text).zipIdx (1 + messages.length)) with
      | error trouble => rw [hothers] at hall; cases hall
      | ok others =>
        rw [hothers] at hall
        cases hall
        exact ⟨others, decodeLines_zipIdx 1 hothers, rfl⟩
    · rintro ⟨others, hothers, rfl⟩
      rw [decodeLines_zipIdx (1 + messages.length) hothers]
      rfl

/-! ## Both formats -/

/-- In a file of CBOR nothing is looked at behind the list of messages that it begins with, so that
    the file is understood with anything behind it and that is lost. A file of JSON lines is
    understood exactly if what stands behind the messages is, and then nothing is lost. -/
theorem decode_append (messages : List Message)
    (h : ∀ m ∈ messages, ∀ i ∈ m.indices, i < UInt64.size)
    (hsize : (encode .cbor messages).length < UInt64.size) :
    (∀ more, decode .cbor (encode .cbor messages ++ more) = .ok messages) ∧
      (∀ bytes all, decode .cbor bytes = .ok all →
        ∀ more, decode .cbor (bytes ++ more) = .ok all) ∧
      ∀ more all, decode .json (encode .json messages ++ more) = .ok all ↔
        ∃ others, decode .json more = .ok others ∧ all = messages ++ others := by
  have hback : decode .cbor (encode .cbor messages) = .ok messages := by
    rw [decode, encode, Message.listOfCbor?_listToCbor h hsize]
  exact ⟨decode_cbor_append hback, fun _ _ hall => decode_cbor_append hall,
    fun more _ => decode_json_append h more⟩

end MessageFile

/-! ## A file of two answers -/

namespace Examples

open Protocol MessageFile

/-- An answer to a command. -/
def consent (id : String) : Message := .commandResponse ⟨⟨id⟩, none⟩

theorem decode_consent_append :
    (∀ m ∈ [consent "first"], ∀ i ∈ m.indices, i < UInt64.size) ∧
      (encode .cbor [consent "first"]).length < UInt64.size ∧
      ∀ more, decode .cbor (encode .cbor [consent "first"] ++ more) = .ok [consent "first"] := by
  have hindices : ∀ m ∈ [consent "first"], ∀ i ∈ m.indices, i < UInt64.size := by decide
  have hsize : (encode .cbor [consent "first"]).length < UInt64.size := by decide +kernel
  exact ⟨hindices, hsize, (decode_append [consent "first"] hindices hsize).1⟩

/-- Of two files of CBOR, one behind the other, the second one is lost without a complaint. -/
theorem exists_lost : ∃ messages others, encode .cbor others ≠ [] ∧
    decode .cbor (encode .cbor others) = .ok others ∧ others ≠ [] ∧
    decode .cbor (encode .cbor messages ++ encode .cbor others) = .ok messages := by
  have hback (id : String) (hsize : (encode .cbor [consent id]).length < UInt64.size) :
      decode .cbor (encode .cbor [consent id]) = .ok [consent id] := by
    have hindices : ∀ m ∈ [consent id], ∀ i ∈ m.indices, i < UInt64.size :=
      List.forall_mem_singleton.2 (List.forall_mem_nil _)
    rw [decode, encode, Message.listOfCbor?_listToCbor hindices hsize]
  exact ⟨[consent "first"], [consent "second"], by decide +kernel,
    hback "second" (by decide +kernel), List.cons_ne_nil _ _,
    decode_cbor_append (hback "first" (by decide +kernel)) _⟩

end Examples

end DeltaForest
