import DeltaForest.Proofs.Legible

/-!
# Texts of a tree

There are many JSON texts for one tree: white space between lexemes is free, and so is how the
characters of a string are written. A text is one for a tree if it has the lexemes of the tree
(`Json.Writes`). Reading depends on lexemes only (`State.run_eq`), so the tree is read from all of
them as it is read from the one in one line; and the text over several lines is one of them, too.
-/

namespace DeltaForest

namespace Json

/-- The lexemes of a text. -/
def lexemes? (cs : List Char) : Option (List Lexeme) :=
  match cs with
  | [] => some []
  | c :: rest =>
    if isSpace c then lexemes? rest
    else
      match _left : lexeme? c rest with
      | none => none
      | some (x, left) => (lexemes? left).map (x :: ·)
termination_by cs.length
decreasing_by
  · simp
  · have := length_lexeme _left
    simp only [List.length_cons]
    omega

end Json

namespace Data

open Json

mutual

/-- The lexemes of a tree that has a text in JSON. -/
def lexemes : Data → List Lexeme
  | .list items => .openList :: (itemLexemes items ++ [.closeList])
  | .map entries => .openMap :: (entryLexemes entries ++ [.closeMap])
  | .text s => [.string (some s)]
  | .pieces d | .tagged _ d => lexemes d
  | d => [.scalar d]

/-- The lexemes of the items of a list, with commas between them. -/
def itemLexemes : List Data → List Lexeme
  | [] => []
  | [d] => lexemes d
  | d :: rest => lexemes d ++ .comma :: itemLexemes rest

/-- The lexemes of the entries of an object, with commas between them. -/
def entryLexemes : List (Data × Data) → List Lexeme
  | [] => []
  | [(k, v)] => .string (some (name k)) :: .colon :: lexemes v
  | (k, v) :: rest =>
    .string (some (name k)) :: .colon :: (lexemes v ++ .comma :: entryLexemes rest)

end

end Data

namespace Json

/-- A text is JSON for a tree. -/
def Writes (text : String) (d : Data) : Prop := lexemes? text.toList = some d.lexemes

/-! ## Reading by lexemes -/

/-- The tree that has been read. -/
def State.tree? (s : State) : Option Data :=
  match s.stage with
  | .done d => some d
  | _ => none

/-- A text is read lexeme by lexeme. -/
theorem State.run_eq (s : State) (cs : List Char) :
    s.run cs = (lexemes? cs).bind fun xs => (xs.foldlM State.step s).bind State.tree? := by
  -- The machine skips spaces and takes lexemes just as the lexer does.
  fun_induction lexemes? cs generalizing s with
  | case1 =>
    rw [State.run]
    rfl
  | case2 c rest hspace ih => rw [State.run, if_pos hspace, ih]
  | case3 c rest hspace hnone =>
    rw [State.run, if_neg hspace]
    split
    · rfl
    · next hsome => cases hnone.symm.trans hsome
  | case4 c rest hspace x left hx ih =>
    rw [State.run_cons (Bool.eq_false_iff.2 hspace) hx, Option.bind_map]
    cases hstep : s.step x with
    | none =>
      cases lexemes? left with
      | none => rfl
      | some xs => simp [hstep]
    | some s' =>
      rw [Option.bind_some, ih]
      cases lexemes? left with
      | none => rfl
      | some xs => simp [hstep]

/-- Texts with the same lexemes are read as the same tree. -/
theorem read_congr {text text' : String} (h : lexemes? text.toList = lexemes? text'.toList) :
    read text = read text' := by
  rw [read, read, State.run_eq, State.run_eq, h]

/-! ## Lexemes one behind the other -/

variable {s t : String} {xs ys : List Lexeme}

/-- A text has these lexemes in front of whatever ends it. -/
def Lexes (s : String) (xs : List Lexeme) : Prop :=
  ∀ rest, Ends rest → lexemes? (s.toList ++ rest) = (lexemes? rest).map (xs ++ ·)

/-- A text has these lexemes in front of anything. -/
def Closes (s : String) (xs : List Lexeme) : Prop :=
  ∀ rest, lexemes? (s.toList ++ rest) = (lexemes? rest).map (xs ++ ·)

/-- A text has these lexemes in front of anything, and it ends what stands before it. -/
structure Marks (s : String) (xs : List Lexeme) : Prop where
  closes : Closes s xs
  ends : ∀ rest, Ends (s.toList ++ rest)

theorem Lexes.writes {d : Data} (h : Lexes s d.lexemes) : Writes s d := by
  have hall := h [] nofun
  rwa [List.append_nil, lexemes?, Option.map_some, List.append_nil] at hall

theorem Closes.lexes (h : Closes s xs) : Lexes s xs := fun rest _ => h rest

theorem map_append_map (r : Option (List Lexeme)) :
    (r.map (ys ++ ·)).map (xs ++ ·) = r.map (xs ++ ys ++ ·) := by
  simp only [Option.map_map, Function.comp_def, List.append_assoc]

/-! Brackets, separators, strings and white space may stand anywhere, words and numbers only in
front of one of these. -/

/-- What ends by itself may stand in front of anything. -/
theorem Closes.before (hs : Closes s xs) (ht : Lexes t ys) : Lexes (s ++ t) (xs ++ ys) := by
  intro rest hrest
  rw [String.toList_append, List.append_assoc, hs, ht rest hrest, map_append_map]

/-- What ends by itself may be put together. -/
theorem Closes.append (hs : Closes s xs) (ht : Closes t ys) : Closes (s ++ t) (xs ++ ys) := by
  intro rest
  rw [String.toList_append, List.append_assoc, hs, ht, map_append_map]

/-- A mark ends what stands in front of it. -/
theorem Lexes.ended (hs : Lexes s xs) (ht : Marks t ys) : Closes (s ++ t) (xs ++ ys) := by
  intro rest
  rw [String.toList_append, List.append_assoc, hs _ (ht.ends rest), ht.closes, map_append_map]

/-- A lexeme that starts with the first character is the first lexeme. -/
theorem lexemes?_cons {c : Char} {cs left : List Char} {x : Lexeme} (hspace : isSpace c = false)
    (hx : lexeme? c cs = some (x, left)) :
    lexemes? (c :: cs) = (lexemes? left).map ([x] ++ ·) := by
  rw [lexemes?, if_neg (by simp [hspace])]
  split
  · next hnone => cases hnone.symm.trans hx
  · next hsome =>
    cases hsome.symm.trans hx
    rfl

/-- A text is one lexeme if it is read as one in front of whatever ends it. -/
theorem lexes_of_lexeme {c : Char} {cs : List Char} {x : Lexeme} (hs : s.toList = c :: cs)
    (hspace : isSpace c = false)
    (hx : ∀ rest, Ends rest → lexeme? c (cs ++ rest) = some (x, rest)) : Lexes s [x] := by
  intro rest hrest
  rw [hs, List.cons_append, lexemes?_cons hspace (hx rest hrest)]

/-- A bracket, a comma or a colon. -/
theorem marks_of_char {c : Char} {x : Lexeme} (hs : s.toList = [c]) (hspace : isSpace c = false)
    (hends : isNumberChar c = false ∧ c.isAlpha = false)
    (hx : ∀ rest, lexeme? c rest = some (x, rest)) : Marks s [x] where
  closes rest := by rw [hs, List.singleton_append, lexemes?_cons hspace (hx rest)]
  ends rest := by
    rw [hs, List.singleton_append]
    intro c' hc'
    obtain rfl : c = c' := by simpa using hc'
    exact hends

theorem marks_comma : Marks "," [.comma] := marks_of_char rfl rfl ⟨rfl, rfl⟩ fun _ => rfl

theorem marks_colon : Marks ":" [.colon] := marks_of_char rfl rfl ⟨rfl, rfl⟩ fun _ => rfl

theorem marks_gap : Marks ": " [.colon] where
  closes rest := by
    have hx : lexeme? ':' (' ' :: rest) = some (.colon, ' ' :: rest) := rfl
    show lexemes? (':' :: ' ' :: rest) = _
    rw [lexemes?_cons rfl hx, lexemes?, if_pos (by decide)]
  ends rest := marks_colon.ends (' ' :: rest)

theorem marks_openList : Marks "[" [.openList] := marks_of_char rfl rfl ⟨rfl, rfl⟩ fun _ => rfl

theorem marks_closeList : Marks "]" [.closeList] := marks_of_char rfl rfl ⟨rfl, rfl⟩ fun _ => rfl

theorem marks_openMap : Marks "\x7b" [.openMap] := marks_of_char rfl rfl ⟨rfl, rfl⟩ fun _ => rfl

theorem marks_closeMap : Marks "\x7d" [.closeMap] := marks_of_char rfl rfl ⟨rfl, rfl⟩ fun _ => rfl

/-- A string ends with its quotation mark, whatever comes behind. -/
theorem marks_string (text : String) : Marks (string text) [.string (some text)] where
  closes rest := by
    rw [toList_string_append, lexemes?_cons (by decide) (lexeme?_string text rest)]
  ends rest := by
    rw [toList_string_append]
    intro c hc
    obtain rfl : '"' = c := by simpa using hc
    decide

/-- White space has no lexemes. -/
theorem marks_of_spaces (hs : ∀ c ∈ s.toList, isSpace c = true) (hne : s.toList ≠ []) :
    Marks s [] where
  closes rest := by
    -- Spaces are skipped one by one.
    have hskip : ∀ cs : List Char, (∀ c ∈ cs, isSpace c = true) →
        lexemes? (cs ++ rest) = lexemes? rest := by
      intro cs hcs
      induction cs with
      | nil => rfl
      | cons c cs ih =>
        obtain ⟨hc, hcs⟩ := List.forall_mem_cons.1 hcs
        rw [List.cons_append, lexemes?, if_pos hc, ih hcs]
    rw [hskip _ hs]
    simp
  ends rest := by
    have hspace : ∀ c, isSpace c = true → isNumberChar c = false ∧ c.isAlpha = false := by
      intro c hc
      simp only [isSpace, Bool.or_eq_true, beq_iff_eq] at hc
      rcases hc with ((rfl | rfl) | rfl) | rfl <;> decide
    cases htext : s.toList with
    | nil => exact absurd htext hne
    | cons c cs =>
      intro c' hc'
      obtain rfl : c = c' := by simpa using hc'
      exact hspace c (hs c (htext ▸ List.mem_cons_self))

/-- A line feed and spaces are no lexeme. -/
theorem marks_newline (level : Nat) : Marks (Data.newline level) [] := by
  have htext : (Data.newline level).toList = '\n' :: List.replicate (2 * level) ' ' := by
    simp [Data.newline]
  refine marks_of_spaces ?_ (by simp [htext])
  rw [htext]
  refine List.forall_mem_cons.2 ⟨rfl, fun c hc => ?_⟩
  rw [List.eq_of_mem_replicate hc]
  rfl

end Json

namespace Data

open Json

variable {room : Nat} {d : Data} {items : List Data} {fields : List (String × Data)}

/-! ## Scalars -/

/-- A word of letters is read up to the first character that is no letter. -/
theorem lexes_word {c : Char} {cs : List Char} (hd : d.toJson.toList = c :: cs)
    (hspace : isSpace c = false) (hnumber : isNumberChar c = false)
    (hword : (c :: cs).all Char.isAlpha = true)
    (hread : literal? (String.ofList (c :: cs)) = some d) : Lexes d.toJson [.scalar d] :=
  lexes_of_lexeme hd hspace fun _ hrest =>
    lexeme?_word (List.all_eq_true.1 hword) hnumber hread hrest

theorem lexes_null : Lexes Data.null.toJson [.scalar .null] := by
  have htext : Data.null.toJson.toList = ['n', 'u', 'l', 'l'] := rfl
  exact lexes_word htext rfl rfl rfl rfl

theorem lexes_bool (b : Bool) : Lexes (Data.bool b).toJson [.scalar (.bool b)] := by
  cases b
  · have htext : (Data.bool false).toJson.toList = ['f', 'a', 'l', 's', 'e'] := rfl
    exact lexes_word htext rfl rfl rfl rfl
  · have htext : (Data.bool true).toJson.toList = ['t', 'r', 'u', 'e'] := rfl
    exact lexes_word htext rfl rfl rfl rfl

/-- A number is read up to the first character that belongs to no number. -/
theorem lexes_nat {n : Nat} (h : n < UInt64.size) :
    Lexes (Data.nat n).toJson [.scalar (.nat n)] := by
  have htext : (Data.nat n).toJson.toList = Nat.toDigits 10 n := Nat.toList_repr
  cases hn : Nat.toDigits 10 n with
  | nil => exact absurd hn Nat.toDigits_ne_nil
  | cons c cs =>
    refine lexes_of_lexeme (htext.trans hn) ?_ fun rest hrest => (lexeme?_toDigits h hn hrest).2
    exact (lexeme?_toDigits h hn (show Ends [] from nofun)).1

/-! ## In one line -/

theorem lexes_empty : Lexes "" [] := by
  intro rest _
  simp

/-- Items with commas between them are the lexemes of the items. -/
theorem lexes_toJsonItems (h : ∀ d ∈ items, Lexes d.toJson d.lexemes) :
    Lexes (toJsonItems items) (itemLexemes items) := by
  induction items with
  | nil => exact lexes_empty
  | cons d items ih =>
    obtain ⟨hd, hrest⟩ := List.forall_mem_cons.1 h
    cases items with
    | nil => exact hd
    | cons d' items =>
      simpa [toJsonItems, itemLexemes] using (hd.ended marks_comma).before (ih hrest)

/-- Entries with commas between them are the lexemes of the entries. -/
theorem lexes_toJsonEntries (h : ∀ f ∈ fields, Lexes f.2.toJson f.2.lexemes) :
    Lexes (toJsonEntries (entries fields)) (entryLexemes (entries fields)) := by
  induction fields with
  | nil => exact lexes_empty
  | cons f fields ih =>
    obtain ⟨name, d⟩ := f
    obtain ⟨hd, hrest⟩ := List.forall_mem_cons.1 h
    have hentry := ((marks_string name).closes.append marks_colon.closes).before hd
    cases fields with
    | nil => simpa [entries, toJsonEntries, entryLexemes, Json.name] using hentry
    | cons f' fields =>
      simpa [entries, toJsonEntries, entryLexemes, Json.name] using
        (hentry.ended marks_comma).before (ih hrest)

/-- The text in one line is one for the tree. -/
theorem Portable.lexes_toJson (h : d.Portable room) : Lexes d.toJson d.lexemes := by
  induction h with
  | null => exact lexes_null
  | bool b => exact lexes_bool b
  | nat h => exact lexes_nat h
  | text s => exact (marks_string s).closes.lexes
  | list h ih =>
    exact ((marks_openList.closes.before (lexes_toJsonItems ih)).ended marks_closeList).lexes
  | object h ih =>
    exact ((marks_openMap.closes.before (lexes_toJsonEntries ih)).ended marks_closeMap).lexes

/-! ## Over several lines -/

/-- Items on lines of their own are the same lexemes. -/
theorem lexes_toPrettyItems {level : Nat}
    (h : ∀ d ∈ items, Lexes (d.toPrettyJson level) d.lexemes) :
    Lexes (toPrettyItems level items) (itemLexemes items) := by
  induction items with
  | nil => exact lexes_empty
  | cons d items ih =>
    obtain ⟨hd, hrest⟩ := List.forall_mem_cons.1 h
    have hitem := (marks_newline level).closes.before hd
    cases items with
    | nil => exact hitem
    | cons d' items =>
      simpa [toPrettyItems, itemLexemes] using (hitem.ended marks_comma).before (ih hrest)

/-- Entries on lines of their own are the same lexemes. -/
theorem lexes_toPrettyEntries {level : Nat}
    (h : ∀ f ∈ fields, Lexes (f.2.toPrettyJson level) f.2.lexemes) :
    Lexes (toPrettyEntries level (entries fields)) (entryLexemes (entries fields)) := by
  induction fields with
  | nil => exact lexes_empty
  | cons f fields ih =>
    obtain ⟨name, d⟩ := f
    obtain ⟨hd, hrest⟩ := List.forall_mem_cons.1 h
    have hname := (marks_newline level).closes.append (marks_string name).closes
    have hentry := (hname.append marks_gap.closes).before hd
    -- A comma stands between two entries and not behind the last.
    cases fields with
    | nil => simpa [entries, toPrettyEntries, entryLexemes, Json.name] using hentry
    | cons f' fields =>
      simpa [entries, toPrettyEntries, entryLexemes, Json.name] using
        (hentry.ended marks_comma).before (ih hrest)

/-- So is the text over several lines. -/
theorem Portable.lexes_toPrettyJson (h : d.Portable room) (level : Nat) :
    Lexes (d.toPrettyJson level) d.lexemes := by
  induction h generalizing level with
  | null => exact lexes_null
  | bool b => exact lexes_bool b
  | nat h => exact lexes_nat h
  | text s => exact (marks_string s).closes.lexes
  | @list room items h ih =>
    have hitems := lexes_toPrettyItems fun d hd => ih d hd (level + 1)
    -- An empty list is printed without a line of its own.
    cases items with
    | nil => exact (marks_openList.closes.append marks_closeList.closes).lexes
    | cons d items =>
      have hinside := (marks_openList.closes.before hitems).ended (marks_newline level)
      simpa [toPrettyJson, lexemes] using (hinside.append marks_closeList.closes).lexes
  | @object room fields h ih =>
    have hentries := lexes_toPrettyEntries fun f hf => ih f hf (level + 1)
    cases fields with
    | nil => exact (marks_openMap.closes.append marks_closeMap.closes).lexes
    | cons f fields =>
      have hinside := (marks_openMap.closes.before hentries).ended (marks_newline level)
      simpa [object_eq, entries, toPrettyJson, lexemes] using
        (hinside.append marks_closeMap.closes).lexes

/-- The compact text of a tree that travels writes the tree. -/
theorem Portable.writes_toJson (h : d.Portable room) : Writes d.toJson d :=
  h.lexes_toJson.writes

/-- So does the text that is printed for the eye. -/
theorem Portable.writes_toPrettyJson (h : d.Portable room) (level : Nat) :
    Writes (d.toPrettyJson level) d :=
  (h.lexes_toPrettyJson level).writes

/-- A tree that travels is read from each of its texts. -/
theorem Portable.read_of_writes (h : d.Portable room) (hroom : room ≤ depthLimit) {text : String}
    (htext : Writes text d) : read text = some d := by
  rw [read_congr (htext.trans h.writes_toJson.symm), read_toJson h hroom]

end Data

end DeltaForest
