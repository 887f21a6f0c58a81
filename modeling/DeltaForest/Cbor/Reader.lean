import DeltaForest.Cbor.Head
import DeltaForest.Data

/-!
# Reading CBOR bytes

Bytes are read item by item. What has been opened and not yet closed is kept as a stack of frames,
the innermost first; a finished tree is handed to the innermost frame, which may be finished by
it. Reading takes one item from the front, and what is behind it is left alone.
-/

namespace DeltaForest.Cbor

/-- An item that is not yet closed, with what it holds so far in reverse and, unless its length is
    open, the number of items or entries that are missing. -/
inductive Frame
  | list (missing : Option Nat) (items : List Data)
  | map (missing : Option Nat) (entries : List (Data × Data))
  /-- A map whose last entry lacks its value. -/
  | entry (missing : Option Nat) (entries : List (Data × Data)) (key : Data)
  | tagged (tag : Nat)

/-- How far an item has been read. -/
inductive State
  | reading (stack : List Frame)
  | done (tree : Data)

/-- Whether one more item or entry is the last one that is missing. -/
def isLast : Option Nat → Bool
  | some n => n ≤ 1
  | none => false

/-- Hands a finished tree to the innermost frame. -/
def State.give : List Frame → Data → State
  | [], d => .done d
  | .tagged tag :: outer, d => give outer (.tagged tag d)
  | .list missing items :: outer, d =>
    if isLast missing then give outer (.list (d :: items).reverse)
    else .reading (.list (missing.map (· - 1)) (d :: items) :: outer)
  -- A tree for a map is the key of a new entry.
  | .map missing entries :: outer, d => .reading (.entry missing entries d :: outer)
  | .entry missing entries key :: outer, d =>
    if isLast missing then give outer (.map ((key, d) :: entries).reverse)
    else .reading (.map (missing.map (· - 1)) ((key, d) :: entries) :: outer)

/-- Opens a list or map; an empty one is finished at once. -/
def State.enter (stack : List Frame) (length : Option Nat) (frame : Frame) (empty : Data) :
    State :=
  if length = some 0 then give stack empty else .reading (frame :: stack)

/-- Ends the innermost item, whose length has to be open. -/
def State.stop : List Frame → Option State
  | .list none items :: outer => some (give outer (.list items.reverse))
  | .map none entries :: outer => some (give outer (.map entries.reverse))
  | _ => none

/-- The simple values that are understood: the truth values and two spellings of nothing. -/
def simple? (n : Nat) : Option Data :=
  if n = 20 then some (.bool false)
  else if n = 21 then some (.bool true)
  else if n = 22 ∨ n = 23 then some .null
  else none

/-- The text that bytes stand for. -/
def utf8? (bytes : List UInt8) : Option String :=
  String.fromUTF8? ⟨bytes.toArray⟩

/-- So many bytes at the front, and what is left behind them. -/
def take? (n : Nat) (bytes : List UInt8) : Option (List UInt8 × List UInt8) :=
  if n ≤ bytes.length then some (bytes.take n, bytes.drop n) else none

theorem length_take {n : Nat} {bytes front rest : List UInt8}
    (h : take? n bytes = some (front, rest)) : rest.length ≤ bytes.length := by
  unfold take? at h
  split at h
  · cases h
    simp
  · cases h

/-- The length that the head of a piece announces, if the piece is of the kind that is collected:
    text or bytes. -/
def pieceLength? (isText : Bool) : Head → Option (Option Nat)
  | .text length => if isText then some length else none
  | .bytes length => if isText then none else some length
  | _ => none

/-- The pieces of a string whose length is open, collected by `add` behind what has been collected
    already. Pieces may come in pieces themselves: `nesting` counts the stop codes that are due. -/
def pieces? {α : Type} (isText : Bool) (add : α → List UInt8 → Option α) (nesting : Nat)
    (collected : α) (bytes : List UInt8) : Option (α × List UInt8) :=
  match _front : head? bytes with
  | none => none
  | some (.stop, rest) =>
    -- The stop code that closes the outermost piece ends the string.
    match nesting with
    | 0 | 1 => some (collected, rest)
    | nesting + 1 => pieces? isText add nesting collected rest
  | some (x, rest) =>
    match pieceLength? isText x with
    | none => none
    | some none => pieces? isText add (nesting + 1) collected rest
    | some (some n) =>
      match _piece : take? n rest with
      | none => none
      | some (piece, rest) =>
        match add collected piece with
        | none => none
        | some collected => pieces? isText add nesting collected rest
termination_by bytes.length
decreasing_by
  · exact length_head _front
  · exact length_head _front
  · exact Nat.lt_of_le_of_lt (length_take _piece) (length_head _front)

/-- Behind the pieces no more is left than before them. -/
theorem length_pieces {α : Type} {isText : Bool} {add : α → List UInt8 → Option α}
    {nesting : Nat} {a b : α} {bytes rest : List UInt8}
    (h : pieces? isText add nesting a bytes = some (b, rest)) : rest.length ≤ bytes.length := by
  fun_induction pieces? isText add nesting a bytes <;> grind [→ length_head, → length_take]

/-- Reads what a head starts: the new state, and what is left of the bytes behind the head. -/
def State.step (stack : List Frame) (x : Head) (bytes : List UInt8) :
    Option (State × List UInt8) :=
  match x with
  | .nat n => some (give stack (.nat n), bytes)
  | .negative n => some (give stack (.negative n), bytes)
  | .real => some (give stack .real, bytes)
  | .simple n => (simple? n).map fun d => (give stack d, bytes)
  | .tag n => some (.reading (.tagged n :: stack), bytes)
  | .list length => some (enter stack length (.list length []) (.list []), bytes)
  | .map length => some (enter stack length (.map length []) (.map []), bytes)
  | .stop => (stop stack).map (·, bytes)
  | .bytes (some n) => (take? n bytes).map fun (b, rest) => (give stack (.bytes b), rest)
  | .bytes none =>
    (pieces? false (fun b piece => some (b ++ piece)) 1 [] bytes).map fun (b, rest) =>
      (give stack (.pieces (.bytes b)), rest)
  | .text (some n) =>
    match take? n bytes with
    | none => none
    | some (b, rest) => (utf8? b).map fun s => (give stack (.text s), rest)
  | .text none =>
    (pieces? true (fun s piece => (utf8? piece).map (s ++ ·)) 1 "" bytes).map fun (s, rest) =>
      (give stack (.pieces (.text s)), rest)

/-- Behind a step no more is left than before it. -/
theorem length_step {stack : List Frame} {x : Head} {s : State} {bytes rest : List UInt8}
    (h : State.step stack x bytes = some (s, rest)) : rest.length ≤ bytes.length := by
  unfold State.step at h
  split at h <;> grind [→ length_take, → length_pieces, Option.map_eq_some_iff]

/-- Reads the rest of an item. -/
def State.run (s : State) (bytes : List UInt8) : Option (Data × List UInt8) :=
  match s with
  | .done d => some (d, bytes)
  | .reading stack =>
    match _front : head? bytes with
    | none => none
    | some (x, behind) =>
      match _step : step stack x behind with
      | none => none
      | some (s, rest) => s.run rest
termination_by bytes.length
decreasing_by
  exact Nat.lt_of_le_of_lt (length_step _step) (length_head _front)

/-- The tree that stands at the front of the bytes, and what is left behind it. -/
def item? (bytes : List UInt8) : Option (Data × List UInt8) :=
  (State.reading []).run bytes

end DeltaForest.Cbor
