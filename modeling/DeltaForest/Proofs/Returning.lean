import DeltaForest.Proofs.Portable
import DeltaForest.Wire.Record

/-!
# Values that come back

A value comes back (`Returns`) if its tree travels and is read as the value again, wherever it comes
from: straight from JSON, straight from CBOR, or from a part that was taken apart. Scalars come
back, and so do optional values, lists and records of what comes back.

For records this follows the reader, field by field: it takes so many fields from among those that
there are, in the order in which they are written, and makes a value of them
(`Fields.Reader.Takes`). All that is asked of a record is that the names of its fields differ and
are not too long.
-/

namespace DeltaForest

/-- The tree of a value travels, and the value is read from it wherever there is `room` for the
    lists and maps in it. -/
structure Returns {α : Type} [Wire α] (room : Nat) (a : α) : Prop where
  portable : (toData a).Portable room
  read : ∀ src : Source, src.Holds room → ofData src (toData a) = some a

variable {α β : Type} {room : Nat} {src : Source}

/-! ## Scalars -/

namespace Returns

theorem bool (b : Bool) : Returns room b where
  portable := .bool b
  read src _ := by cases src <;> rfl

theorem string (s : String) : Returns room s where
  portable := .text s
  read src _ := by cases src <;> rfl

/-- A number is read below a limit if it is below it. -/
theorem natBelow_nat {limit n : Nat} (h : n < limit) : natBelow limit src (.nat n) = some n := by
  have hfilter : (some n).filter (· < limit) = some n := by simp [h]
  cases src <;> exact hfilter

theorem nat {n : Nat} (h : n < UInt64.size) : Returns room n where
  portable := .nat h
  read _ _ := natBelow_nat h

theorem uint64 (n : UInt64) : Returns room n where
  portable := .nat n.toNat_lt
  read src _ := by
    show (natBelow UInt64.size src (.nat n.toNat)).map UInt64.ofNat = some n
    rw [natBelow_nat n.toNat_lt, Option.map_some, UInt64.ofNat_toNat]

theorem uint32 (n : UInt32) : Returns room n where
  portable := .nat (Nat.lt_trans n.toNat_lt (by decide))
  read src _ := by
    show (natBelow UInt32.size src (.nat n.toNat)).map UInt32.ofNat = some n
    rw [natBelow_nat n.toNat_lt, Option.map_some, UInt32.ofNat_toNat]

/-! ## Optional values and lists -/

variable [Wire α] {a : α}

/-- A value that is missing is read back as missing. -/
theorem absent : Returns room (none : Option α) where
  portable := .null
  read _ _ := rfl

/-- What may be absent is read as what it is if it is not null. -/
theorem ofData_of_ne_null {d : Data} (h : d ≠ .null) :
    (ofData src d : Option (Option α)) = (ofData src d).map some := by
  cases d with
  | null => exact absurd rfl h
  | _ => rfl

/-- A value whose tree is not nothing comes back where it may be missing. -/
theorem present (h : Returns room a) (hnull : toData a ≠ .null) : Returns room (some a) where
  portable := h.portable
  read src hsrc := (ofData_of_ne_null hnull).trans (congrArg (Option.map some) (h.read src hsrc))

/-- A list stands for its items wherever it comes from. -/
theorem itemsOf_list (items : List Data) : itemsOf src (.list items) = some items := by
  cases src <;> rfl

/-- A list comes back if all of its items do. -/
theorem list {xs : List α} (h : ∀ x ∈ xs, Returns room x) : Returns (room + 1) xs where
  portable := .list (List.forall_mem_map.2 fun x hx => (h x hx).portable)
  read src hsrc := by
    show ((itemsOf src (.list (xs.map toData))).bind fun items =>
      items.mapM (ofData src.inside)) = _
    rw [itemsOf_list, Option.bind_some]
    induction xs with
    | nil => rfl
    | cons x xs ih =>
      obtain ⟨hx, hxs⟩ := List.forall_mem_cons.1 h
      rw [List.map_cons, List.mapM_cons, hx.read _ hsrc.inside, ih hxs]
      rfl

end Returns

/-! ## Fields by name -/

namespace Fields

/-- Whether a name is read from everywhere. -/
def isShort (name : String) : Bool := name.utf8ByteSize ≤ Label.cborLimit

/-- Names that can stand side by side in a record. -/
def Distinct (names : List String) : Prop := names.Nodup ∧ ∀ name ∈ names, isShort name

instance (names : List String) : Decidable (Distinct names) :=
  inferInstanceAs (Decidable (names.Nodup ∧ ∀ name ∈ names, isShort name))

/-- The names of fields. -/
abbrev names (fields : List (String × Data)) : List String := fields.map Prod.fst

/-- Fields as they are found in a map. -/
def labels (fields : List (String × Data)) : List (Label × Data) :=
  fields.map fun (name, d) => (.name name, d)

theorem labels_cons (name : String) (d : Data) (fields : List (String × Data)) :
    labels ((name, d) :: fields) = (.name name, d) :: labels fields := rfl

theorem labels_append (fields fields' : List (String × Data)) :
    labels (fields ++ fields') = labels fields ++ labels fields' := List.map_append

variable {fields : List (String × Data)} {name : String} {d : Data}

/-- A short name is read as the name of a field. -/
theorem ofData_name (h : isShort name) : Label.ofData src (.text name) = some (.name name) := by
  cases src with
  | cbor around =>
    show (if name.utf8ByteSize ≤ Label.cborLimit then some (Label.name name) else none) = _
    rw [if_pos (of_decide_eq_true h)]
  | json | part => rfl

/-- The names of a record are all read as names if they are short. -/
theorem labels?_entries (h : ∀ name ∈ names fields, isShort name) :
    Data.labels? src (Data.entries fields) = some (labels fields) := by
  rw [Data.labels?]
  induction fields with
  | nil => rfl
  | cons f fields ih =>
    obtain ⟨name, d⟩ := f
    obtain ⟨hname, hfields⟩ := List.forall_mem_cons.1 h
    simp only [Data.entries_cons, List.mapM_cons, ofData_name hname, ih hfields]
    rfl

/-- Where names do not clash a field is found once. -/
theorem filter_eq_singleton (hnames : (names fields).Nodup) (h : (name, d) ∈ fields) :
    fields.filter (·.1 == name) = [(name, d)] := by
  induction fields with
  | nil => cases h
  | cons f fields ih =>
    obtain ⟨hf, hrest⟩ := List.nodup_cons.1 hnames
    rcases List.mem_cons.1 h with rfl | hmem
    · have hnone : fields.filter (·.1 == name) = [] := by
        refine List.filter_eq_nil_iff.2 fun f' hf' heq => hf ?_
        exact List.mem_map.2 ⟨f', hf', beq_iff_eq.1 heq⟩
      rw [List.filter_cons_of_pos (by simp), hnone]
    · have hne : f.1 ≠ name := fun heq => hf (List.mem_map.2 ⟨_, hmem, heq.symm⟩)
      rw [List.filter_cons_of_neg (by simpa using hne), ih hrest hmem]

/-- A field is looked for by its name, not by its position. -/
theorem filter_labels (position : Nat) (name : String) :
    (labels fields).filter (·.1.isAt position name) = labels (fields.filter (·.1 == name)) := by
  rw [labels, List.filter_map]
  rfl

/-- A field is found under its name where names do not clash. -/
theorem find?_labels (hnames : (names fields).Nodup) (h : (name, d) ∈ fields) (position : Nat) :
    (labelled (labels fields)).find? position name = some (some d) := by
  simp only [find?, filter_labels, filter_eq_singleton hnames h]
  rfl

/-- A field that is not there is missed. -/
theorem find?_labels_of_notMem (h : name ∉ names fields) (position : Nat) :
    (labelled (labels fields)).find? position name = some none := by
  have hnone : fields.filter (·.1 == name) = [] := by
    refine List.filter_eq_nil_iff.2 fun f hf heq => h ?_
    exact List.mem_map.2 ⟨f, hf, beq_iff_eq.1 heq⟩
  simp only [find?, filter_labels, hnone]
  rfl

/-! ## Readers of fields -/

namespace Reader

/-- A record is read as its fields are. -/
theorem record?_object {r : Reader α} {a : α} (hshort : ∀ name ∈ names fields, isShort name)
    (hwhole : r.whole src.inside (labelled (labels fields)) = some a) :
    (Data.object fields).record? src r = some a := by
  have hlabels : Data.labels? src (Data.entries fields) = some (labels fields) :=
    labels?_entries hshort
  cases src <;> exact (congrArg (Option.bind · _) hlabels).trans hwhole

/-- A reader takes these fields from among those that there are, and makes a value of them. -/
structure Takes (room : Nat) (r : Reader α) (a : α) (fields : List (String × Data)) : Prop where
  run : ∀ all : List (String × Data), (names all).Nodup → fields ⊆ all →
    ∀ src : Source, src.Holds room → ∀ asked,
      r.run src (labelled (labels all)) asked = some (a, (names fields).reverse ++ asked)
  portable : ∀ f ∈ fields, f.2.Portable room

variable {r : Reader α} {next : α → Reader β} {a : α} {b : β}

/-- Readers are run one behind the other. -/
theorem run_bind {found : Fields} {asked asked' : List String}
    (h : r.run src found asked = some (a, asked')) :
    (r >>= next).run src found asked = (next a).run src found asked' :=
  congrArg (Option.bind · _) h

/-- The reader for a field finds the field and notes that it has been asked for. -/
theorem run_field [Wire α] {missing : Fields → Option α} (hnames : (names fields).Nodup)
    (hmem : (name, d) ∈ fields) (hread : ofData src d = some a) {asked : List String} :
    (Reader.field name missing).run src (labelled (labels fields)) asked =
      some (a, name :: asked) := by
  simp only [Reader.field, find?_labels hnames hmem, Option.bind_some, hread, Option.map_some]

/-- The reader for a field that is not there takes what is to be taken instead. -/
theorem run_field_of_notMem [Wire α] {missing : Fields → Option α} (hname : name ∉ names fields)
    (hmissing : missing (labelled (labels fields)) = some a) {asked : List String} :
    (Reader.field name missing).run src (labelled (labels fields)) asked =
      some (a, name :: asked) := by
  simp only [Reader.field, find?_labels_of_notMem hname, Option.bind_some, hmissing,
    Option.map_some]

/-- Nothing is left over once all names have been asked for. -/
theorem passesOver_labels {asked : List String} (h : ∀ name ∈ names fields, name ∈ asked) :
    (labelled (labels fields)).passesOver src asked = true := by
  refine List.all_eq_true.2 (List.forall_mem_map.2 fun f hf => ?_)
  refine Bool.or_eq_true_iff.2 (.inl (List.any_eq_true.2 ?_))
  exact ⟨f.1, h _ (List.mem_map_of_mem hf), beq_self_eq_true _⟩

namespace Takes

variable {fields' : List (String × Data)}

/-- A reader that asks for nothing takes no fields. -/
theorem pure (a : α) : (Pure.pure a : Reader α).Takes room a [] where
  run _ _ _ _ _ _ := rfl
  portable _ hf := nomatch hf

/-- A field is taken if its value is read back. -/
theorem field [Wire α] {missing : Fields → Option α} (h : Returns room a) :
    (Reader.field name missing).Takes room a [(name, toData a)] where
  run all hnames hsub src hsrc asked := by
    have hmem : (name, toData a) ∈ all := hsub List.mem_cons_self
    exact run_field hnames hmem (h.read src hsrc)
  portable := by simpa using h.portable

/-- What takes one part of the fields and then the other one takes both. -/
theorem bind (h : r.Takes room a fields) (hnext : (next a).Takes room b fields') :
    (r >>= next).Takes room b (fields ++ fields') where
  run all hnames hsub src hsrc asked := by
    obtain ⟨hfields, hfields'⟩ := List.append_subset.1 hsub
    rw [run_bind (h.run all hnames hfields src hsrc asked),
      hnext.run all hnames hfields' src hsrc, ← List.append_assoc, ← List.reverse_append,
      ← List.map_append]
  portable := List.forall_mem_append.2 ⟨h.portable, hnext.portable⟩

/-- The next field is taken first. -/
theorem cons [Wire α] {missing : Fields → Option α} (h : Returns room a)
    (hnext : (next a).Takes room b fields) :
    (Reader.field name missing >>= next).Takes room b ((name, toData a) :: fields) :=
  (field h).bind hnext

/-- What a reader makes of its fields is made into something else. -/
theorem map (h : r.Takes room a fields) (f : α → β) :
    (r >>= fun a => Pure.pure (f a)).Takes room (f a) fields := by
  have hbind : (r >>= fun a => Pure.pure (f a)).Takes room (f a) (fields ++ []) :=
    h.bind (pure (f a))
  rwa [List.append_nil] at hbind

/-- Fields of which a reader takes all are read as a whole. -/
theorem whole (h : r.Takes room a fields) (hnames : (names fields).Nodup)
    (hsrc : src.Holds room) : r.whole src (labelled (labels fields)) = some a := by
  rw [Reader.whole, h.run fields hnames (List.Subset.refl _) src hsrc, Option.bind_some]
  refine if_pos (passesOver_labels fun name hname => ?_)
  exact List.mem_append_left _ (List.mem_reverse.2 hname)

/-- The last field may be missing if the reader knows what it then has to be. -/
theorem whole_missing [Wire β] {γ : Type} {missing : Fields → Option β} {f : α → β → γ}
    (h : r.Takes room a fields) (hnames : (names fields).Nodup) (hname : name ∉ names fields)
    (hmissing : missing (labelled (labels fields)) = some b) (hsrc : src.Holds room) :
    Reader.whole (r >>= fun a => Reader.field name missing >>= fun b => Pure.pure (f a b)) src
      (labelled (labels fields)) = some (f a b) := by
  rw [Reader.whole, run_bind (h.run fields hnames (List.Subset.refl _) src hsrc _),
    run_bind (run_field_of_notMem hname hmissing)]
  refine if_pos (passesOver_labels fun name' hname' => ?_)
  exact List.mem_cons_of_mem _ (List.mem_append_left _ (List.mem_reverse.2 hname'))

/-- What is a record of the fields that are taken comes back. -/
theorem returns [Wire α] (hdata : toData a = .object fields)
    (hread : ∀ (src : Source) (d : Data), ofData src d = d.record? src r)
    (hnames : Distinct (names fields)) (h : r.Takes room a fields) : Returns (room + 1) a where
  portable := hdata ▸ .object h.portable
  read src hsrc := by rw [hread, hdata, record?_object hnames.2 (h.whole hnames.1 hsrc.inside)]

end Takes

end Reader

end Fields

end DeltaForest
