import DeltaForest.Cbor.Reader
import DeltaForest.Cbor.Writer
import DeltaForest.Proofs.Heads
import DeltaForest.Proofs.Portable

/-!
# Items as they are written

The bytes that spell a tree (`Data.Spells`): every head is as short as it can be, a list says in
front how long it is, and so does a map, unless a rule on its entries leaves its length open; then
the stop code is at its end. The names of a map are texts.

A tree that travels is written so (`Data.Portable.spells`), and whatever spells a tree is read as
that tree, wherever it stands and whatever follows (`Data.Spells.run`, `Data.Spells.item?`).
-/

namespace DeltaForest.Data

open Cbor

variable {isOpen : List (Data × Data) → Bool}

mutual

/-- Bytes that spell a tree. -/
inductive Spells (isOpen : List (Data × Data) → Bool) : Data → List UInt8 → Prop
  | null {h : List UInt8} : Head.Spelt (.simple 22) h → Spells isOpen .null h
  | bool {h : List UInt8} (b : Bool) :
    Head.Spelt (.simple (if b then 21 else 20)) h → Spells isOpen (.bool b) h
  | nat {h : List UInt8} {n : Nat} : Head.Spelt (.nat n) h → Spells isOpen (.nat n) h
  | text {h : List UInt8} {s : String} :
    Head.Spelt (.text (some (utf8 s).length)) h → Spells isOpen (.text s) (h ++ utf8 s)
  | list {h bytes : List UInt8} {items : List Data} :
    Head.Spelt (.list (some items.length)) h → SpellItems isOpen items bytes →
      Spells isOpen (.list items) (h ++ bytes)
  | closed {h bytes : List UInt8} {fields : List (String × Data)} :
    isOpen (entries fields) = false → Head.Spelt (.map (some fields.length)) h →
      SpellFields isOpen fields bytes → Spells isOpen (.object fields) (h ++ bytes)
  | opened {h bytes stop : List UInt8} {fields : List (String × Data)} :
    isOpen (entries fields) = true → Head.Spelt (.map none) h →
      SpellFields isOpen fields bytes → Head.Spelt .stop stop →
        Spells isOpen (.object fields) (h ++ bytes ++ stop)

/-- Bytes that spell the items of a list, one behind the other. -/
inductive SpellItems (isOpen : List (Data × Data) → Bool) : List Data → List UInt8 → Prop
  | nil : SpellItems isOpen [] []
  | cons {d : Data} {items : List Data} {bytes more : List UInt8} :
    Spells isOpen d bytes → SpellItems isOpen items more →
      SpellItems isOpen (d :: items) (bytes ++ more)

/-- Bytes that spell the names and values of a map, one behind the other. -/
inductive SpellFields (isOpen : List (Data × Data) → Bool) :
    List (String × Data) → List UInt8 → Prop
  | nil : SpellFields isOpen [] []
  | cons {name : String} {d : Data} {fields : List (String × Data)}
    {front bytes more : List UInt8} :
    Spells isOpen (.text name) front → Spells isOpen d bytes → SpellFields isOpen fields more →
      SpellFields isOpen ((name, d) :: fields) (front ++ bytes ++ more)

end

/-! ## Writing -/

variable {room : Nat} {d : Data} {items : List Data} {fields : List (String × Data)}

/-- A tree takes a byte at least. -/
theorem Portable.length_toCbor_pos (h : d.Portable room) (isOpen : List (Data × Data) → Bool) :
    0 < (d.toCbor isOpen).length := by
  cases h with
  | null | bool | nat => exact length_toBytes_pos _
  | text | list =>
    rw [toCbor, List.length_append]
    exact Nat.add_pos_left (length_toBytes_pos _) _
  | object =>
    rw [object_eq, toCbor]
    split
    · rw [List.append_assoc, List.length_append]
      exact Nat.add_pos_left (length_toBytes_pos _) _
    · rw [List.length_append]
      exact Nat.add_pos_left (length_toBytes_pos _) _

/-- Items that are written one behind the other are spelt so, and there are no more of them than
    bytes. -/
theorem spellItems_toCborItems (h : ∀ d ∈ items, d.Portable room)
    (ih : ∀ d ∈ items, (d.toCbor isOpen).length < UInt64.size → d.Spells isOpen (d.toCbor isOpen))
    (hsize : (toCborItems isOpen items).length < UInt64.size) :
    SpellItems isOpen items (toCborItems isOpen items) ∧
      items.length ≤ (toCborItems isOpen items).length := by
  induction items with
  | nil => exact ⟨.nil, Nat.le_refl _⟩
  | cons d items ihitems =>
    obtain ⟨hd, hrest⟩ := List.forall_mem_cons.1 h
    obtain ⟨ihd, ihrest⟩ := List.forall_mem_cons.1 ih
    have hpos := hd.length_toCbor_pos isOpen
    rw [toCborItems, List.length_append] at hsize ⊢
    obtain ⟨hitems, hlength⟩ := ihitems hrest ihrest (by omega)
    exact ⟨.cons (ihd (by omega)) hitems, by rw [List.length_cons]; omega⟩

/-- A text is written as it should be. -/
theorem spells_text {s : String} (hsize : ((Data.text s).toCbor isOpen).length < UInt64.size) :
    (Data.text s).Spells isOpen ((Data.text s).toCbor isOpen) := by
  rw [toCbor, List.length_append] at hsize
  have hlength : (utf8 s).length < UInt64.size := by omega
  exact .text (Head.Fits.spelt hlength)

/-- Fields that are written one behind the other are spelt so, and there are no more of them than
    bytes. -/
theorem spellFields_toCborEntries (h : ∀ f ∈ fields, f.2.Portable room)
    (ih : ∀ f ∈ fields,
      (f.2.toCbor isOpen).length < UInt64.size → f.2.Spells isOpen (f.2.toCbor isOpen))
    (hsize : (toCborEntries isOpen (entries fields)).length < UInt64.size) :
    SpellFields isOpen fields (toCborEntries isOpen (entries fields)) ∧
      fields.length ≤ (toCborEntries isOpen (entries fields)).length := by
  induction fields with
  | nil => exact ⟨.nil, Nat.le_refl _⟩
  | cons f fields ihfields =>
    obtain ⟨hd, hrest⟩ := List.forall_mem_cons.1 h
    obtain ⟨ihd, ihrest⟩ := List.forall_mem_cons.1 ih
    -- There are no more fields than bytes, so that their number fits where the bytes can be
    -- counted.
    have hpos := hd.length_toCbor_pos isOpen
    rw [entries_cons, toCborEntries, List.length_append, List.length_append] at hsize ⊢
    obtain ⟨hfields, hlength⟩ := ihfields hrest ihrest (by omega)
    exact ⟨.cons (spells_text (by omega)) (ihd (by omega)) hfields,
      by rw [List.length_cons]; omega⟩

/-- A tree that travels is written as it should be. -/
theorem Portable.spells (h : d.Portable room) (hsize : (d.toCbor isOpen).length < UInt64.size) :
    d.Spells isOpen (d.toCbor isOpen) := by
  induction h with
  | null => exact .null (Head.Fits.spelt (by decide : 22 < UInt8.size))
  | bool b =>
    have hfits : (if b then 21 else 20) < UInt8.size := by cases b <;> decide
    exact .bool b (Head.Fits.spelt hfits)
  | nat h => exact .nat (Head.Fits.spelt h)
  | text s => exact spells_text hsize
  | @list room items h ih =>
    rw [toCbor, List.length_append] at hsize
    obtain ⟨hitems, hlength⟩ := spellItems_toCborItems h ih (by omega)
    -- There are no more items than bytes, and the bytes can be counted.
    have hcount : items.length < UInt64.size := by omega
    exact .list (Head.Fits.spelt hcount) hitems
  | @object room fields h ih =>
    rw [object_eq, toCbor] at hsize ⊢
    split at hsize
    · next hopen =>
      simp only [List.length_append] at hsize
      obtain ⟨hfields, -⟩ := spellFields_toCborEntries h ih (by omega)
      rw [if_pos hopen]
      exact .opened hopen (Head.Fits.spelt (by decide : 0 < UInt64.size)) hfields
        (Head.Fits.spelt trivial)
    · next hclosed =>
      rw [List.length_append] at hsize
      obtain ⟨hfields, hlength⟩ := spellFields_toCborEntries h ih (by omega)
      have hcount : fields.length < UInt64.size := by omega
      rw [if_neg hclosed, entries, List.length_map]
      exact .closed (Bool.eq_false_iff.2 hclosed) (Head.Fits.spelt hcount) hfields

/-! ## Reading -/

/-- A text is read from its bytes. -/
theorem utf8?_utf8 (s : String) : utf8? (utf8 s) = some s := by
  rw [utf8?, utf8, String.fromUTF8?]
  exact dif_pos s.isValidUTF8

theorem take?_append (front rest : List UInt8) :
    take? front.length (front ++ rest) = some (front, rest) := by
  rw [take?, if_pos (by simp)]
  simp

variable {stack outer : List Frame} {x : Head} {h bytes rest : List UInt8}

/-- What is read next starts with a head. -/
theorem run_reading : (State.reading stack).run bytes =
    (head? bytes).bind fun (x, behind) =>
      (State.step stack x behind).bind fun (s, rest) => s.run rest := by
  rw [State.run]
  split
  · next hfront => rw [hfront]; rfl
  · next x behind hfront =>
    rw [hfront, Option.bind_some]
    dsimp only
    split
    · next hstep => rw [hstep, Option.bind_none]
    · next s rest hstep => rw [hstep, Option.bind_some]

/-- Reading goes on behind a head. -/
theorem run_of_spelt (hx : x.Spelt h) : (State.reading stack).run (h ++ rest) =
    (State.step stack x rest).bind fun (s, rest) => s.run rest := by
  rw [run_reading, head?_append hx.1, Option.bind_some, List.nil_append]

mutual

/-- What spells a tree is read as the tree, wherever it stands. -/
theorem Spells.run {d : Data} {bytes : List UInt8} : d.Spells isOpen bytes →
    ∀ stack rest, (State.reading stack).run (bytes ++ rest) = (State.give stack d).run rest
  | .null h, stack, rest | .nat h, stack, rest => by
    rw [run_of_spelt h]
    rfl
  | .bool b h, stack, rest => by
    rw [run_of_spelt h]
    cases b <;> rfl
  | .text h, stack, rest => by
    rw [List.append_assoc, run_of_spelt h, State.step, take?_append]
    simp only [utf8?_utf8, Option.map_some, Option.bind_some]
  | .list h hitems, stack, rest => by
    rw [List.append_assoc, run_of_spelt h, State.step, Option.bind_some, State.enter]
    -- An empty list is whole at once; in any other one the first item is awaited.
    dsimp only
    split
    · next hnone =>
      obtain rfl := List.eq_nil_of_length_eq_zero (Option.some.inj hnone)
      cases hitems
      rfl
    · next hsome => exact hitems.run (fun hnil => hsome (by rw [hnil]; rfl)) stack [] rest
  | .closed _ h hfields, stack, rest => by
    rw [List.append_assoc, run_of_spelt h, State.step, Option.bind_some, State.enter]
    dsimp only
    split
    · next hnone =>
      obtain rfl := List.eq_nil_of_length_eq_zero (Option.some.inj hnone)
      cases hfields
      rfl
    · next hsome => exact hfields.run (fun hnil => hsome (by rw [hnil]; rfl)) stack [] rest
  | .opened _ h hfields hstop, stack, rest => by
    rw [List.append_assoc, List.append_assoc, run_of_spelt h, State.step, Option.bind_some,
      State.enter]
    dsimp only
    rw [if_neg (by simp), hfields.run_open, run_of_spelt hstop]
    simp [State.step, State.stop, object_eq]

/-- What spells items is read as those that are missing from a list. -/
theorem SpellItems.run {items : List Data} {bytes : List UInt8} :
    SpellItems isOpen items bytes → items ≠ [] → ∀ outer done rest,
      (State.reading (.list (some items.length) done :: outer)).run (bytes ++ rest) =
        (State.give outer (.list (done.reverse ++ items))).run rest
  | .nil, hne, _, _, _ => absurd rfl hne
  | @SpellItems.cons _ d [] _ _ hd .nil, _, outer, done, rest => by
    rw [List.append_assoc, hd.run, State.give, if_pos (by rfl), List.reverse_cons,
      List.nil_append]
  | @SpellItems.cons _ d (d' :: items) _ _ hd hmore, _, outer, done, rest => by
    have hlast : isLast (some (d :: d' :: items).length) = false := by simp [isLast]
    rw [List.append_assoc, hd.run, State.give, hlast, if_neg Bool.false_ne_true]
    refine (hmore.run (List.cons_ne_nil _ _) outer (d :: done) rest).trans ?_
    rw [List.reverse_cons, List.append_assoc, List.singleton_append]

/-- What spells fields is read as those that are missing from a map. -/
theorem SpellFields.run {fields : List (String × Data)} {bytes : List UInt8} :
    SpellFields isOpen fields bytes → fields ≠ [] → ∀ outer done rest,
      (State.reading (.map (some fields.length) done :: outer)).run (bytes ++ rest) =
        (State.give outer (.map (done.reverse ++ entries fields))).run rest
  | .nil, hne, _, _, _ => absurd rfl hne
  | @SpellFields.cons _ name d [] _ _ _ hname hd .nil, _, outer, done, rest => by
    rw [List.append_assoc, List.append_assoc, hname.run, State.give, hd.run, State.give,
      if_pos (by rfl), List.reverse_cons, List.nil_append]
    rfl
  | @SpellFields.cons _ name d (f :: fields) _ _ _ hname hd hmore, _, outer, done, rest => by
    have hlast : isLast (some ((name, d) :: f :: fields).length) = false := by simp [isLast]
    rw [List.append_assoc, List.append_assoc, hname.run, State.give, hd.run, State.give, hlast,
      if_neg Bool.false_ne_true]
    refine (hmore.run (List.cons_ne_nil _ _) outer ((.text name, d) :: done) rest).trans ?_
    rw [List.reverse_cons, List.append_assoc, List.singleton_append, entries_cons _ d]

/-- What spells fields is read as entries of a map of unknown length. -/
theorem SpellFields.run_open {fields : List (String × Data)} {bytes : List UInt8} :
    SpellFields isOpen fields bytes → ∀ outer done rest,
      (State.reading (.map none done :: outer)).run (bytes ++ rest) =
        (State.reading (.map none ((entries fields).reverse ++ done) :: outer)).run rest
  | .nil, _, _, _ => rfl
  | @SpellFields.cons _ name d fields _ _ _ hname hd hmore, outer, done, rest => by
    rw [List.append_assoc, List.append_assoc, hname.run, State.give, hd.run, State.give, isLast,
      if_neg Bool.false_ne_true]
    refine (hmore.run_open outer ((.text name, d) :: done) rest).trans ?_
    rw [entries_cons, List.reverse_cons, List.append_assoc, List.singleton_append]

end

/-- What spells a tree is read as the tree, and what follows is left. -/
theorem Spells.item? (hd : d.Spells isOpen bytes) :
    Cbor.item? (bytes ++ rest) = some (d, rest) := by
  rw [Cbor.item?, hd.run, State.give, State.run]

end DeltaForest.Data
