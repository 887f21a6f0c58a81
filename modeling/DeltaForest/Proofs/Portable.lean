import DeltaForest.Wire

/-!
# Trees that travel

The trees that messages are made of use only a part of what a tree can be: scalars that every
format has, lists, and maps from names (`Data.Portable`). Such a tree can be passed over and taken
apart wherever there is room for the lists and maps in it.
-/

namespace DeltaForest

namespace Data

/-- The entries of a map from names. -/
def entries (fields : List (String × Data)) : List (Data × Data) :=
  fields.map fun (name, d) => (.text name, d)

theorem entries_nil : entries [] = [] := rfl

theorem entries_cons (name : String) (d : Data) (fields : List (String × Data)) :
    entries ((name, d) :: fields) = (.text name, d) :: entries fields := rfl

theorem object_eq (fields : List (String × Data)) : object fields = .map (entries fields) := rfl

/-- A tree of numbers of 64 bits, texts, truth values and nothing, in so many lists and maps from
    names inside one another at most. -/
inductive Portable : Nat → Data → Prop
  | null {room : Nat} : Portable room .null
  | bool {room : Nat} (b : Bool) : Portable room (.bool b)
  | nat {room n : Nat} (h : n < UInt64.size) : Portable room (.nat n)
  | text {room : Nat} (s : String) : Portable room (.text s)
  | list {room : Nat} {items : List Data} (h : ∀ d ∈ items, Portable room d) :
    Portable (room + 1) (.list items)
  | object {room : Nat} {fields : List (String × Data)} (h : ∀ f ∈ fields, Portable room f.2) :
    Portable (room + 1) (.object fields)

variable {room : Nat} {d : Data}

/-! ## Taking apart -/

theorem arePlain_iff {items : List Data} :
    arePlain items = true ↔ ∀ d ∈ items, d.isPlain = true := by
  induction items with
  | nil => simp [arePlain]
  | cons d items ih => rw [arePlain, Bool.and_eq_true, ih, List.forall_mem_cons]

theorem entriesArePlain_iff {fields : List (String × Data)} :
    entriesArePlain (entries fields) = true ↔ ∀ f ∈ fields, f.2.isPlain = true := by
  induction fields with
  | nil => simp [entries_nil, entriesArePlain]
  | cons f fields ih =>
    rw [entries_cons, entriesArePlain, Bool.and_eq_true, ih, List.forall_mem_cons]
    rfl

/-- Nothing in it keeps such a tree from being taken apart. -/
theorem Portable.isPlain (h : d.Portable room) : d.isPlain = true := by
  induction h with
  | null | bool | nat | text => rfl
  | list h ih =>
    rw [Data.isPlain]
    exact arePlain_iff.2 ih
  | object h ih =>
    rw [object_eq, Data.isPlain]
    exact entriesArePlain_iff.2 ih

/-! ## Walking through -/

theorem areWalkable_iff {items : List Data} :
    areWalkable room items = true ↔ ∀ d ∈ items, d.isWalkable room = true := by
  induction items with
  | nil => simp [areWalkable]
  | cons d items ih => rw [areWalkable, Bool.and_eq_true, ih, List.forall_mem_cons]

theorem entriesAreWalkable_iff {fields : List (String × Data)} :
    entriesAreWalkable room (entries fields) = true ↔
      ∀ f ∈ fields, f.2.isWalkable room = true := by
  induction fields with
  | nil => simp [entries_nil, entriesAreWalkable]
  | cons f fields ih =>
    rw [entries_cons, entriesAreWalkable, Bool.and_eq_true, ih, List.forall_mem_cons]
    simp [isWalkable]

/-- Such a tree can be walked through if there is room for what is inside it. -/
theorem Portable.isWalkable (h : d.Portable room) {room' : Nat} (hle : room ≤ room') :
    d.isWalkable room' = true := by
  induction h generalizing room' with
  | null | bool | nat | text => simp [Data.isWalkable]
  | list h ih =>
    cases room' with
    | zero => omega
    | succ room' =>
      rw [Data.isWalkable]
      exact areWalkable_iff.2 fun d hd => ih d hd (Nat.le_of_succ_le_succ hle)
  | object h ih =>
    cases room' with
    | zero => omega
    | succ room' =>
      rw [object_eq, Data.isWalkable]
      exact entriesAreWalkable_iff.2 fun f hf => ih f hf (Nat.le_of_succ_le_succ hle)

end Data

/-! ## By where a tree comes from -/

namespace Source

/-- Where a tree comes from, so many lists and maps inside one another can be walked through. -/
def Holds (src : Source) (room : Nat) : Prop :=
  match src with
  | cbor around => around + room ≤ Cbor.depthLimit
  | json | part => True

variable {src : Source} {room : Nat} {d : Data}

theorem Holds.inside (h : src.Holds (room + 1)) : src.inside.Holds room := by
  cases src with
  | cbor around =>
    have hroom : around + (room + 1) ≤ Cbor.depthLimit := h
    show around + 1 + room ≤ Cbor.depthLimit
    omega
  | json | part => trivial

theorem holds_part : part.Holds room := trivial

theorem takesApart_of_portable (hsrc : src.Holds room) (h : d.Portable room) :
    src.takesApart d = true := by
  cases src with
  | json => exact h.isPlain
  | cbor around =>
    have hroom : around + room ≤ Cbor.depthLimit := hsrc
    exact Bool.and_eq_true_iff.2 ⟨h.isWalkable (by omega), h.isPlain⟩
  | part => rfl

end Source

end DeltaForest
