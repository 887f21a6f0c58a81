import DeltaForest.MessageFile
import DeltaForest.Proofs.Binary
import Mathlib.Data.List.Basic

/-!
# Files of messages come back

A message is printed without control characters (`Data.Portable.clean`), whatever its texts hold. So
a line feed in a file of JSON lines always ends a line, no line loses a carriage return of its own,
and none is taken for blank.
-/

namespace DeltaForest

namespace Json

/-- No control character. -/
def Clean (c : Char) : Prop := 0x20 ≤ c.toNat

/-- A text without control characters. -/
def IsClean (s : String) : Prop := ∀ c ∈ s.toList, Clean c

instance (c : Char) : Decidable (Clean c) := Nat.decLe 0x20 c.toNat

instance (s : String) : Decidable (IsClean s) := List.decidableBAll Clean s.toList

theorem isClean_append {s t : String} (hs : IsClean s) (ht : IsClean t) : IsClean (s ++ t) := by
  intro c hc
  rw [String.toList_append, List.mem_append] at hc
  exact hc.elim (hs c) (ht c)

/-- A character is written without control characters, be it one or not. -/
theorem isClean_stringChar (c : Char) : IsClean (stringChar c) := by
  unfold stringChar
  split
  -- Characters with an escape of their own are written by that; of the others those that are
  -- controls are written as four digits.
  case h_8 =>
    split
    · next hlt =>
      obtain ⟨hdigits, -⟩ := hex4_of_lt _ hlt
      have hdigit : ∀ n < 16, Clean n.digitChar := by decide
      refine isClean_append (by decide) fun x hx => ?_
      rw [hdigits] at hx
      rcases List.mem_cons.1 hx with rfl | hx
      · decide
      rcases List.mem_cons.1 hx with rfl | hx
      · decide
      rcases List.mem_pair.1 hx with rfl | rfl
      · exact hdigit _ (by omega)
      · exact hdigit _ (by omega)
    · next hge =>
      intro x hx
      rw [Char.toString_eq_singleton, String.toList_singleton, List.mem_singleton] at hx
      exact hx ▸ Nat.le_of_not_lt hge
  all_goals decide

/-- A text is written without control characters, whatever is in it. -/
theorem isClean_string (s : String) : IsClean (string s) := by
  refine isClean_append (isClean_append (by decide) fun c hc => ?_) (by decide)
  rw [String.toList_join, List.mem_flatMap] at hc
  obtain ⟨piece, hpiece, hc⟩ := hc
  obtain ⟨c', -, rfl⟩ := List.mem_map.1 hpiece
  exact isClean_stringChar c' c hc

end Json

namespace Data

open Json

/-- Items without control characters are printed without them. -/
theorem isClean_toJsonItems {items : List Data} (h : ∀ d ∈ items, IsClean d.toJson) :
    IsClean (toJsonItems items) := by
  induction items with
  | nil => decide
  | cons d items ih =>
    obtain ⟨hd, hrest⟩ := List.forall_mem_cons.1 h
    cases items with
    | nil => exact hd
    | cons d' items => exact isClean_append (isClean_append hd (by decide)) (ih hrest)

/-- Entries without control characters are printed without them. -/
theorem isClean_toJsonEntries {fields : List (String × Data)}
    (h : ∀ f ∈ fields, IsClean f.2.toJson) : IsClean (toJsonEntries (entries fields)) := by
  induction fields with
  | nil => decide
  | cons f fields ih =>
    obtain ⟨hd, hrest⟩ := List.forall_mem_cons.1 h
    have hentry : IsClean (string f.1 ++ ":" ++ f.2.toJson) :=
      isClean_append (isClean_append (isClean_string f.1) (by decide)) hd
    cases fields with
    | nil => exact hentry
    | cons f' fields => exact isClean_append (isClean_append hentry (by decide)) (ih hrest)

/-- A tree that travels is printed without control characters. -/
theorem Portable.isClean {room : Nat} {d : Data} (h : d.Portable room) : IsClean d.toJson := by
  induction h with
  | null => decide
  | bool b => cases b <;> decide
  | @nat room n h =>
    intro c hc
    have htext : (Data.nat n).toJson.toList = Nat.toDigits 10 n := Nat.toList_repr
    rw [htext] at hc
    -- The digits of a number stand behind all control characters.
    have hdigit := Text.isDigit_toDigits c hc
    simp only [Char.isDigit, Bool.and_eq_true, decide_eq_true_eq] at hdigit
    exact Nat.le_trans (by decide : 0x20 ≤ 48) hdigit.1
  | text s => exact isClean_string s
  | list h ih =>
    exact isClean_append (isClean_append (by decide) (isClean_toJsonItems ih)) (by decide)
  | object h ih =>
    exact isClean_append (isClean_append (by decide) (isClean_toJsonEntries ih)) (by decide)

end Data

/-! ## Lines -/

namespace Text

variable {line rest : List Char}

/-- A line that ends is the first one, and the others stand behind it. -/
theorem linesFrom_append (hline : '\n' ∉ line) (current : List Char) :
    linesFrom current (line ++ '\n' :: rest) =
      dropReturn (current.reverse ++ line) :: linesFrom [] rest := by
  induction line generalizing current with
  | nil => rw [List.nil_append, linesFrom, List.append_nil]
  | cons c line ih =>
    obtain ⟨hc, hline⟩ := not_or.1 (List.mem_cons.not.1 hline)
    rw [List.cons_append, linesFrom, ih hline, List.reverse_cons, List.append_assoc]
    · rfl
    · exact fun heq => hc heq.symm

/-- What does not end is one line if there is anything of it. -/
theorem linesFrom_of_notMem (hline : '\n' ∉ line) (current : List Char) :
    linesFrom current line =
      if current.reverse ++ line = [] then [] else [current.reverse ++ line] := by
  induction line generalizing current with
  | nil =>
    rw [linesFrom]
    simp
  | cons c line ih =>
    obtain ⟨hc, hline⟩ := not_or.1 (List.mem_cons.not.1 hline)
    rw [linesFrom, ih hline, List.reverse_cons, List.append_assoc]
    · rfl
    · exact fun heq => hc heq.symm

/-- White space and no line feed. -/
def IsBlank (s : String) : Prop := isBlankLine s.toList = true ∧ '\n' ∉ s.toList

/-- Blank lines have been put into a text: in front of lines, between them and behind them, where
    the last one need not end. -/
inductive Spaced : String → String → Prop
  | rest {blank : String} : IsBlank blank → Spaced "" blank
  | line {line whole spaced : String} :
    '\n' ∉ line.toList → Spaced whole spaced →
      Spaced (line ++ "\n" ++ whole) (line ++ "\n" ++ spaced)
  | blank {blank whole spaced : String} :
    IsBlank blank → Spaced whole spaced → Spaced whole (blank ++ "\n" ++ spaced)

/-- A line in front is the first line, without a carriage return at its end. -/
theorem lines_append {line rest : String} (hline : '\n' ∉ line.toList) :
    lines (line ++ "\n" ++ rest) = String.ofList (dropReturn line.toList) :: lines rest := by
  have htext : (line ++ "\n" ++ rest).toList = line.toList ++ '\n' :: rest.toList := by
    rw [String.toList_append, String.toList_append, List.append_assoc]
    rfl
  rw [lines, htext, linesFrom_append hline]
  rfl

/-- Without the carriage return at its end a blank line is blank, too. -/
theorem isBlankLine_dropReturn (h : isBlankLine line = true) :
    isBlankLine (dropReturn line) = true := by
  rw [dropReturn]
  split
  · exact List.all_eq_true.2 fun c hc => List.all_eq_true.1 h c ((List.dropLast_subset line) hc)
  · exact h

end Text

namespace Json

variable {s : String}

/-- Without control characters there is no line feed. -/
theorem IsClean.notMem (h : IsClean s) : '\n' ∉ s.toList := fun hmem =>
  absurd (h _ hmem) (by decide)

/-- Without control characters there is no carriage return to drop. -/
theorem IsClean.dropReturn (h : IsClean s) : Text.dropReturn s.toList = s.toList := by
  rw [Text.dropReturn, if_neg]
  intro hlast
  exact absurd (h _ (List.mem_of_getLast? hlast)) (by decide)

end Json

/-! ## Files -/

namespace MessageFile

open Protocol Text

variable {m : Message} {messages : List Message} {whole spaced : String}

/-- A message is printed without control characters. -/
theorem isClean_toJson (h : ∀ i ∈ m.indices, i < UInt64.size) : Json.IsClean m.toJson :=
  (Message.portable_toTree h).isClean

/-- The line of a message is not blank. -/
theorem not_isBlankLine_toJson (m : Message) : isBlankLine m.toJson.toList = false := by
  have hfront : m.toJson.toList.head? = some '\x7b' := by
    rw [Message.toJson, Message.toTree, Data.object_eq, Data.toJson, String.toList_append,
      String.toList_append]
    rfl
  refine Bool.eq_false_iff.2 fun hblank => ?_
  have hmem := List.mem_of_head? hfront
  exact absurd (List.all_eq_true.1 hblank _ hmem) (by decide)

/-- The line of a message is read as the message. -/
theorem ofJson?_line (h : ∀ i ∈ m.indices, i < UInt64.size) :
    Message.ofJson? m.toJson = some m := by
  rw [Message.ofJson?, Message.toJson, Json.read_toJson (Message.portable_toTree h) (by decide)]
  exact Message.ofTree?_toTree h

/-- Each message is printed on a line of its own. -/
theorem toLines_cons (m : Message) (messages : List Message) :
    toLines (m :: messages) = m.toJson ++ "\n" ++ toLines messages := by
  rw [toLines, List.map_cons, String.join_cons]
  rfl

/-- A text starts with one line only. -/
theorem eq_of_lines {line line' rest rest' : String} (hline : '\n' ∉ line.toList)
    (hline' : '\n' ∉ line'.toList) (h : line ++ "\n" ++ rest = line' ++ "\n" ++ rest') :
    line = line' ∧ rest = rest' := by
  have htext (line rest : String) :
      (line ++ "\n" ++ rest).toList = line.toList ++ '\n' :: rest.toList := by
    rw [String.toList_append, String.toList_append, List.append_assoc]
    rfl
  -- The line is what stands in front of the first line feed.
  have hfront {l rest : List Char} (hl : '\n' ∉ l) :
      (l ++ '\n' :: rest).takeWhile (· ≠ '\n') = l := by
    have hall : ∀ c ∈ l, decide (c ≠ '\n') = true :=
      fun c hc => decide_eq_true (ne_of_mem_of_not_mem hc hl)
    rw [List.takeWhile_append_of_pos hall]
    simp
  have hlist : line.toList ++ '\n' :: rest.toList = line'.toList ++ '\n' :: rest'.toList := by
    rw [← htext, h, htext]
  have hsame : line.toList = line'.toList := by rw [← hfront hline, hlist, hfront hline']
  rw [hsame] at hlist
  exact ⟨String.toList_inj.1 hsame,
    String.toList_inj.1 (List.cons.inj (List.append_cancel_left hlist)).2⟩

/-- The messages are found on their lines, whatever blank lines there are. -/
theorem decodeLines_of_spaced (hspaced : Spaced whole spaced)
    (h : ∀ m ∈ messages, ∀ i ∈ m.indices, i < UInt64.size) (hwhole : whole = toLines messages)
    (k : Nat) : decodeLines ((lines spaced).zipIdx k) = .ok messages := by
  induction hspaced generalizing messages k with
  | @rest blank hblank =>
    -- White space behind the last line is no line of a message.
    have hmessages : messages = [] := by
      cases messages with
      | nil => rfl
      | cons m messages =>
        rw [toLines_cons] at hwhole
        have hlength := congrArg (List.length ∘ String.toList) hwhole
        simp at hlength
    subst hmessages
    rw [lines, linesFrom_of_notMem hblank.2]
    split
    · rfl
    · rw [List.map_singleton, List.zipIdx_cons, decodeLines, String.toList_ofList]
      exact if_pos hblank.1
  | @line line whole spaced hline hspaced ih =>
    cases messages with
    | nil =>
      have hlength := congrArg (List.length ∘ String.toList) hwhole
      simp [toLines] at hlength
    | cons m messages =>
      obtain ⟨hm, hmessages⟩ := List.forall_mem_cons.1 h
      have hclean := isClean_toJson hm
      rw [toLines_cons] at hwhole
      obtain ⟨rfl, hrest⟩ := eq_of_lines hline hclean.notMem hwhole
      rw [lines_append hline, List.zipIdx_cons, decodeLines, hclean.dropReturn,
        String.ofList_toList, if_neg (by simp [not_isBlankLine_toJson]), ofJson?_line hm,
        ih hmessages hrest]
      rfl
  | @blank blank whole spaced hblank hspaced ih =>
    rw [lines_append hblank.2, List.zipIdx_cons, decodeLines, String.toList_ofList,
      if_pos (isBlankLine_dropReturn hblank.1)]
    exact ih h hwhole (k + 1)

/-- Messages are printed one behind the other. -/
theorem toLines_append (messages messages' : List Message) :
    toLines (messages ++ messages') = toLines messages ++ toLines messages' := by
  induction messages with
  | nil => exact (String.empty_append).symm
  | cons m messages ih =>
    rw [List.cons_append, toLines_cons, ih, toLines_cons, ← String.append_assoc]

theorem utf8_append (s t : String) : Data.utf8 (s ++ t) = Data.utf8 s ++ Data.utf8 t := by
  simp [Data.utf8]

/-- A text is known by its bytes. -/
theorem utf8_injective {s t : String} (h : Data.utf8 s = Data.utf8 t) : s = t := by
  have hread := Data.utf8?_utf8 s
  rw [h, Data.utf8?_utf8] at hread
  exact (Option.some.inj hread).symm

/-- Nothing put into it is a way to put blank lines into a text. -/
theorem spaced_toLines (h : ∀ m ∈ messages, ∀ i ∈ m.indices, i < UInt64.size) :
    Spaced (toLines messages) (toLines messages) := by
  induction messages with
  | nil => exact .rest ⟨rfl, List.not_mem_nil⟩
  | cons m messages ih =>
    obtain ⟨hm, hmessages⟩ := List.forall_mem_cons.1 h
    rw [toLines_cons]
    exact .line (isClean_toJson hm).notMem (ih hmessages)

/-- The messages are found in their file, whatever blank lines have been put into it. -/
theorem decode_of_spaced (h : ∀ m ∈ messages, ∀ i ∈ m.indices, i < UInt64.size)
    (hspaced : Spaced (toLines messages) spaced) :
    decode .json (Data.utf8 spaced) = .ok messages := by
  rw [decode, Data.utf8?_utf8]
  exact decodeLines_of_spaced hspaced h rfl 1

/-- Decoding a file undoes encoding it in both formats, in the binary one as far as its bytes can be
    counted; and of two files of JSON lines, one behind the other and with blank lines put in
    anywhere, come the messages of both. -/
theorem decode_encode (messages messages' : List Message)
    (h : ∀ m ∈ messages ++ messages', ∀ i ∈ m.indices, i < UInt64.size) :
    (∀ format, (format = .cbor → (encode .cbor messages).length < UInt64.size) →
      decode format (encode format messages) = .ok messages) ∧
      ∀ whole spaced, Data.utf8 whole = encode .json messages ++ encode .json messages' →
        Spaced whole spaced → decode .json (Data.utf8 spaced) = .ok (messages ++ messages') := by
  have hfirst : ∀ m ∈ messages, ∀ i ∈ m.indices, i < UInt64.size :=
    fun m hm => h m (List.mem_append_left _ hm)
  constructor
  · rintro (_ | _) hsize
    · exact decode_of_spaced hfirst (spaced_toLines hfirst)
    · rw [decode, encode, Message.listOfCbor?_listToCbor hfirst (hsize rfl)]
  · intro whole spaced hwhole hspaced
    rw [encode, encode, ← utf8_append, ← toLines_append] at hwhole
    rw [utf8_injective hwhole] at hspaced
    exact decode_of_spaced h hspaced

end MessageFile

/-! ## Two files with blank lines -/

namespace Examples

open Protocol MessageFile Text

/-- The messages of two files, with a line of white space and an empty line put between them and
    white space behind them. -/
def spacedFiles : String :=
  newChildWithNote.toJson ++ "\n" ++ (" \t\r" ++ "\n" ++ ("" ++ "\n" ++
    (newChildWithNote.toJson ++ "\n" ++ "  ")))

theorem decode_spacedFiles :
    (∀ m ∈ [newChildWithNote] ++ [newChildWithNote], ∀ i ∈ m.indices, i < UInt64.size) ∧
      (encode .cbor [newChildWithNote]).length < UInt64.size ∧
        (∀ format, decode format (encode format [newChildWithNote]) = .ok [newChildWithNote]) ∧
          decode .json (Data.utf8 spacedFiles) = .ok [newChildWithNote, newChildWithNote] := by
  have hindices : ∀ m ∈ [newChildWithNote] ++ [newChildWithNote],
      ∀ i ∈ m.indices, i < UInt64.size := by decide
  have hsize : (encode .cbor [newChildWithNote]).length < UInt64.size := by decide +kernel
  obtain ⟨hback, hspaced⟩ := decode_encode [newChildWithNote] [newChildWithNote] hindices
  have hline : '\n' ∉ newChildWithNote.toJson.toList :=
    (isClean_toJson (hindices _ List.mem_cons_self)).notMem
  -- Line by line it is told which lines have been put in.
  have hwhole : Spaced (toLines [newChildWithNote] ++ toLines [newChildWithNote]) spacedFiles := by
    rw [← toLines_append, List.singleton_append, toLines_cons, toLines_cons]
    exact .line hline <| .blank ⟨rfl, by decide⟩ <| .blank ⟨rfl, by decide⟩ <|
      .line hline <| .rest ⟨rfl, by decide⟩
  exact ⟨hindices, hsize, fun format => hback format fun _ => hsize,
    hspaced _ _ (utf8_append _ _) hwhole⟩

end Examples

end DeltaForest
