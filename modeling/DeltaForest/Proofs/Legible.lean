import DeltaForest.Json.Reader
import DeltaForest.Proofs.Lexemes
import DeltaForest.Proofs.Portable

/-!
# Trees as they are printed

Reading JSON undoes printing it, for every tree that travels in messages: whatever stands around the
tree and behind it, the reader hands the tree to the innermost list or map that is open and goes on
behind it (`Data.Legible`). That is shown by the shape of trees: scalars are one lexeme, and lists
and maps are read item by item, what has been read of them on top of the stack. It holds as long as
lists and maps are not nested too deep.
-/

namespace DeltaForest.Json

variable {stack : List Frame} {stage : Stage} {x : Lexeme} {c : Char} {cs left rest : List Char}

/-- A lexeme that starts with the first character is taken in one step. -/
theorem State.run_cons {s : State} (hspace : isSpace c = false)
    (hx : lexeme? c cs = some (x, left)) :
    s.run (c :: cs) = (s.step x).bind (·.run left) := by
  rw [State.run, if_neg (by simp [hspace])]
  split
  · next h => simp [hx] at h
  · next x' left' h =>
    obtain ⟨rfl, rfl⟩ : x = x' ∧ left = left' := by simpa [hx] using h
    cases s.step x <;> rfl

/-- A value may start here. -/
def Stage.Awaits (stage : Stage) : Prop := stage = .value ∨ stage = .firstItem

/-- Where a value is awaited, a lexeme that may start one does. -/
theorem State.run_value (hstage : stage.Awaits) (hspace : isSpace c = false)
    (hx : lexeme? c cs = some (x, left)) (hclose : x ≠ .closeList) :
    State.run ⟨stack, stage⟩ (c :: cs) = (State.value? stack x).bind (·.run left) := by
  rw [State.run_cons hspace hx]
  rcases hstage with rfl | rfl
  · rfl
  · cases x <;> first | rfl | exact absurd rfl hclose

end DeltaForest.Json

namespace DeltaForest.Data

open Json

/-- A tree is read as it is printed, wherever there is so much room. -/
def Legible (room : Nat) (d : Data) : Prop :=
  ∀ stack stage rest, stack.length + room ≤ depthLimit → stage.Awaits → Ends rest →
    State.run ⟨stack, stage⟩ (d.toJson.toList ++ rest) = State.run (State.give stack d) rest

variable {room : Nat}

/-- A tree that is one lexeme is read in one step. -/
theorem legible_scalar {d : Data} {c : Char} {cs : List Char} (hd : d.toJson.toList = c :: cs)
    (hspace : isSpace c = false)
    (hx : ∀ rest, Ends rest → lexeme? c (cs ++ rest) = some (.scalar d, rest)) :
    d.Legible room := by
  intro stack stage rest _ hstage hrest
  rw [hd, List.cons_append, State.run_value hstage hspace (hx rest hrest) nofun]
  rfl

/-- The word for a tree is read up to the first character that is no letter. -/
theorem legible_word {d : Data} {c : Char} {cs : List Char} (hd : d.toJson.toList = c :: cs)
    (hspace : isSpace c = false) (hnumber : isNumberChar c = false)
    (hword : (c :: cs).all Char.isAlpha = true)
    (hread : literal? (String.ofList (c :: cs)) = some d) : d.Legible room :=
  legible_scalar hd hspace fun _ hrest =>
    lexeme?_word (List.all_eq_true.1 hword) hnumber hread hrest

theorem legible_null : Data.null.Legible room := by
  have htext : Data.null.toJson.toList = ['n', 'u', 'l', 'l'] := rfl
  exact legible_word htext rfl rfl rfl rfl

theorem legible_bool (b : Bool) : (Data.bool b).Legible room := by
  cases b
  · have htext : (Data.bool false).toJson.toList = ['f', 'a', 'l', 's', 'e'] := rfl
    exact legible_word htext rfl rfl rfl rfl
  · have htext : (Data.bool true).toJson.toList = ['t', 'r', 'u', 'e'] := rfl
    exact legible_word htext rfl rfl rfl rfl

theorem legible_nat {n : Nat} (h : n < UInt64.size) : (Data.nat n).Legible room := by
  have htext : (Data.nat n).toJson.toList = Nat.toDigits 10 n := Nat.toList_repr
  cases hn : Nat.toDigits 10 n with
  | nil => exact absurd hn Nat.toDigits_ne_nil
  | cons c cs =>
    refine legible_scalar (htext.trans hn) ?_ fun rest hrest => (lexeme?_toDigits h hn hrest).2
    exact (lexeme?_toDigits h hn (show Ends [] from nofun)).1

/-- A text is read up to its quotation mark. -/
theorem legible_text (s : String) : (Data.text s).Legible room := by
  intro stack stage rest _ hstage hrest
  show State.run _ ((string s).toList ++ rest) = _
  rw [toList_string_append, State.run_value hstage (by decide) (lexeme?_string s rest) nofun]
  rfl

/-- Whatever closes a list or map, or separates its parts, ends what stands in front. -/
theorem ends_cons {c : Char} {rest : List Char} (hc : c = ',' ∨ c = ']' ∨ c = '\x7d') :
    Ends (c :: rest) := by
  intro c' hc'
  obtain rfl : c = c' := by simpa using hc'
  rcases hc with rfl | rfl | rfl <;> decide

section List

variable {stack : List Frame} {rest : List Char}

/-- At the closing bracket the list is whole and given to what is around it. -/
theorem run_closeList {done : List Data} {stage : Stage}
    (hstage : stage = .firstItem ∨ stage = .more) (hroom : stack.length < depthLimit) :
    State.run ⟨.list done :: stack, stage⟩ (']' :: rest) =
      State.run (State.give stack (.list done.reverse)) rest := by
  have hx : lexeme? ']' rest = some (.closeList, rest) := rfl
  rw [State.run_cons (by decide) hx]
  have hstep : State.step ⟨.list done :: stack, stage⟩ .closeList =
      some (State.leave stack (.list done.reverse)) := by
    rcases hstage with rfl | rfl <;> rfl
  rw [hstep, State.leave, if_pos hroom]
  rfl

/-- Items are printed with commas between them. -/
theorem toList_toJsonItems_cons (d : Data) {items : List Data} (h : items ≠ []) :
    (toJsonItems (d :: items)).toList = d.toJson.toList ++ ',' :: (toJsonItems items).toList := by
  rw [toJsonItems, String.toList_append, String.toList_append, List.append_assoc]
  · rfl
  · exact h

/-- Items are read one by one up to the closing bracket. -/
theorem run_items {items : List Data} (hitems : items ≠ []) (h : ∀ d ∈ items, d.Legible room)
    (hroom : stack.length + (room + 1) ≤ depthLimit) (done : List Data) (stage : Stage)
    (hstage : stage.Awaits) :
    State.run ⟨.list done :: stack, stage⟩ ((toJsonItems items).toList ++ ']' :: rest) =
      State.run (State.give stack (.list (done.reverse ++ items))) rest := by
  have hinner (done : List Data) : (Frame.list done :: stack).length + room ≤ depthLimit := by
    rw [List.length_cons]
    omega
  have hlt : stack.length < depthLimit := by omega
  induction items generalizing done stage with
  | nil => exact absurd rfl hitems
  | cons d items ih =>
    obtain ⟨hd, hrest⟩ := List.forall_mem_cons.1 h
    -- Behind the last item the list is closed; behind the others there is a comma.
    cases items with
    | nil =>
      rw [toJsonItems, hd _ _ _ (hinner done) hstage (ends_cons (.inr (.inl rfl))), State.give,
        run_closeList (.inr rfl) hlt, List.reverse_cons]
    | cons d' items =>
      have hx (cs : List Char) : lexeme? ',' cs = some (.comma, cs) := rfl
      rw [toList_toJsonItems_cons d (List.cons_ne_nil _ _), List.append_assoc, List.cons_append,
        hd _ _ _ (hinner done) hstage (ends_cons (.inl rfl)), State.give,
        State.run_cons (by decide) (hx _)]
      show State.run ⟨.list (d :: done) :: stack, .value⟩ _ = _
      rw [ih (List.cons_ne_nil _ _) hrest _ _ (.inl rfl), List.reverse_cons, List.append_assoc]
      rfl

end List

/-- A list is read item by item, with those that have been read kept in reverse. -/
theorem legible_list {items : List Data} (h : ∀ d ∈ items, d.Legible room) :
    (Data.list items).Legible (room + 1) := by
  intro stack stage rest hroom hstage hrest
  have hlt : stack.length < depthLimit := by omega
  have hx (cs : List Char) : lexeme? '[' cs = some (.openList, cs) := rfl
  have htext : (Data.list items).toJson.toList ++ rest =
      '[' :: ((toJsonItems items).toList ++ ']' :: rest) := by
    rw [toJson, String.toList_append, String.toList_append, List.append_assoc, List.append_assoc]
    rfl
  rw [htext, State.run_value hstage (by decide) (hx _) nofun]
  show State.run ⟨.list [] :: stack, .firstItem⟩ _ = _
  -- An empty list is closed at once.
  by_cases hitems : items = []
  · subst hitems
    exact run_closeList (.inl rfl) hlt
  · exact run_items hitems h hroom [] _ (.inr rfl)

section Map

variable {stack : List Frame} {rest : List Char} {done : List (Data × Data)} {stage : Stage}

/-- At the closing brace the map is whole and given to what is around it. -/
theorem run_closeMap (hstage : stage = .firstKey ∨ stage = .more)
    (hroom : stack.length < depthLimit) :
    State.run ⟨.map done :: stack, stage⟩ ('\x7d' :: rest) =
      State.run (State.give stack (.map done.reverse)) rest := by
  have hx : lexeme? '\x7d' rest = some (.closeMap, rest) := rfl
  rw [State.run_cons (by decide) hx]
  have hstep : State.step ⟨.map done :: stack, stage⟩ .closeMap =
      some (State.leave stack (.map done.reverse)) := by
    rcases hstage with rfl | rfl <;> rfl
  rw [hstep, State.leave, if_pos hroom]
  rfl

/-- A name and a colon are read as the key of an entry. -/
theorem run_key (name : String) (hstage : stage = .key ∨ stage = .firstKey) :
    State.run ⟨.map done :: stack, stage⟩ ((string name).toList ++ ':' :: rest) =
      State.run ⟨.entry done (.text name) :: stack, .value⟩ rest := by
  have hstep : State.step ⟨.map done :: stack, stage⟩ (.string (some name)) =
      some ⟨.entry done (.text name) :: stack, .colon⟩ := by
    rcases hstage with rfl | rfl <;> rfl
  have hx (cs : List Char) : lexeme? ':' cs = some (.colon, cs) := rfl
  rw [toList_string_append, State.run_cons (by decide) (lexeme?_string name _), hstep,
    Option.bind_some, State.run_cons (by decide) (hx _)]
  rfl

theorem toList_toJsonEntry (name : String) (d : Data) :
    (toJsonEntries [(.text name, d)]).toList = (string name).toList ++ ':' :: d.toJson.toList := by
  rw [toJsonEntries, String.toList_append, String.toList_append, List.append_assoc]
  rfl

/-- Entries are printed with commas between them. -/
theorem toList_toJsonEntries_cons (name : String) (d : Data) {entries : List (Data × Data)}
    (h : entries ≠ []) :
    (toJsonEntries ((.text name, d) :: entries)).toList =
      (string name).toList ++
        ':' :: (d.toJson.toList ++ ',' :: (toJsonEntries entries).toList) := by
  rw [toJsonEntries, String.toList_append, String.toList_append, String.toList_append,
    String.toList_append]
  · simp only [List.append_assoc]
    rfl
  · exact h

/-- Entries are read one by one up to the closing bracket. -/
theorem run_entries {fields : List (String × Data)} (hfields : fields ≠ [])
    (h : ∀ f ∈ fields, f.2.Legible room) (hroom : stack.length + (room + 1) ≤ depthLimit)
    (hstage : stage = .key ∨ stage = .firstKey) :
    State.run ⟨.map done :: stack, stage⟩
        ((toJsonEntries (entries fields)).toList ++ '\x7d' :: rest) =
      State.run (State.give stack (.map (done.reverse ++ entries fields))) rest := by
  have hinner (done : List (Data × Data)) (name : String) :
      (Frame.entry done (.text name) :: stack).length + room ≤ depthLimit := by
    rw [List.length_cons]
    omega
  have hlt : stack.length < depthLimit := by omega
  induction fields generalizing done stage with
  | nil => exact absurd rfl hfields
  | cons f fields ih =>
    obtain ⟨hd, hrest⟩ := List.forall_mem_cons.1 h
    obtain ⟨name, d⟩ := f
    -- Behind the last entry the map is closed; behind the others there is a comma.
    cases fields with
    | nil =>
      rw [entries_cons, entries_nil, toList_toJsonEntry, List.append_assoc, List.cons_append,
        run_key name hstage, hd _ _ _ (hinner done name) (.inl rfl) (ends_cons (.inr (.inr rfl))),
        State.give, run_closeMap (.inr rfl) hlt, List.reverse_cons]
    | cons f' fields =>
      have hx (cs : List Char) : lexeme? ',' cs = some (.comma, cs) := rfl
      have hmore : entries (f' :: fields) ≠ [] := List.cons_ne_nil _ _
      rw [entries_cons, toList_toJsonEntries_cons name d hmore, List.append_assoc,
        List.cons_append, run_key name hstage, List.append_assoc, List.cons_append,
        hd _ _ _ (hinner done name) (.inl rfl) (ends_cons (.inl rfl)), State.give,
        State.run_cons (by decide) (hx _)]
      show State.run ⟨.map ((.text name, d) :: done) :: stack, .key⟩ _ = _
      rw [ih (List.cons_ne_nil _ _) hrest (.inl rfl), List.reverse_cons, List.append_assoc]
      rfl

end Map

/-- A record is read field by field, with those that have been read kept in reverse. -/
theorem legible_object {fields : List (String × Data)} (h : ∀ f ∈ fields, f.2.Legible room) :
    (Data.object fields).Legible (room + 1) := by
  intro stack stage rest hroom hstage hrest
  have hlt : stack.length < depthLimit := by omega
  have hx (cs : List Char) : lexeme? '\x7b' cs = some (.openMap, cs) := rfl
  have htext : (Data.object fields).toJson.toList ++ rest =
      '\x7b' :: ((toJsonEntries (entries fields)).toList ++ '\x7d' :: rest) := by
    rw [object_eq, toJson, String.toList_append, String.toList_append, List.append_assoc,
      List.append_assoc]
    rfl
  rw [htext, State.run_value hstage (by decide) (hx _) nofun]
  show State.run ⟨.map [] :: stack, .firstKey⟩ _ = _
  -- An empty map is closed at once.
  by_cases hfields : fields = []
  · subst hfields
    exact run_closeMap (.inl rfl) hlt
  · exact run_entries hfields h hroom (.inr rfl)

/-- Every tree that travels is read as it is printed. -/
theorem Portable.legible {d : Data} (h : d.Portable room) : d.Legible room := by
  induction h with
  | null => exact legible_null
  | bool b => exact legible_bool b
  | nat h => exact legible_nat h
  | text s => exact legible_text s
  | list h ih => exact legible_list ih
  | object h ih => exact legible_object ih

end DeltaForest.Data

namespace DeltaForest.Json

/-- Reading JSON undoes printing it. -/
theorem read_toJson {d : Data} {room : Nat} (h : d.Portable room) (hroom : room ≤ depthLimit) :
    read d.toJson = some d := by
  have hrun := h.legible [] .value [] (by simpa using hroom) (.inl rfl) nofun
  rw [List.append_nil] at hrun
  rw [read, State.start, hrun, State.give, State.run]

end DeltaForest.Json
