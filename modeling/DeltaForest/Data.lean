/-!
# Data trees

What a message is made of before it has a meaning: texts, numbers, lists and maps. JSON and CBOR
are two ways to write such a tree down. A map keeps its entries in order, repeated keys included,
because whoever reads a message has to see a repeated field.

Some trees come from CBOR only: byte strings, strings that were sent in pieces, tagged items, and
maps whose keys are no texts. JSON numbers that are no 64-bit integers, and all CBOR floating-point
numbers, are `real`: no message holds one, so their value is not kept. Well-formed JSON can also
hold values that cannot be read but do no harm in a field that nobody asks for: those are
`unreadable`.
-/

namespace DeltaForest

/-- A tree of data. -/
inductive Data
  /-- Nothing, or a missing value. -/
  | null
  | bool (b : Bool)
  /-- A number from zero on. -/
  | nat (n : Nat)
  /-- The number `-1 - n`. -/
  | negative (n : Nat)
  /-- A number that is no 64-bit integer. -/
  | real
  /-- A value that can be passed over, but not read: a text with half of a surrogate pair, a number
      beyond all bounds, or a list or map inside too many others. -/
  | unreadable
  | text (s : String)
  | bytes (b : List UInt8)
  /-- A text or byte string that was sent in pieces. -/
  | pieces (whole : Data)
  | list (items : List Data)
  | map (entries : List (Data × Data))
  /-- An item with a number in front that says how it is meant. -/
  | tagged (tag : Nat) (item : Data)
  deriving Inhabited

namespace Data

/-- A map from names, in the given order. -/
def object (fields : List (String × Data)) : Data :=
  .map (fields.map fun (name, value) => (.text name, value))

/-- An integer. -/
def ofInt : Int → Data
  | .ofNat n => .nat n
  | .negSucc n => .negative n

mutual

/-- Whether a tree can be taken apart as a whole: it holds no tagged item, no negative number below
    `-2^63`, and nothing unreadable. -/
def isPlain : Data → Bool
  | .tagged _ _ | .unreadable => false
  | .negative n => n < 1 <<< 63
  | .pieces d => isPlain d
  | .list items => arePlain items
  | .map entries => entriesArePlain entries
  | _ => true

/-- `isPlain` for every item of a list. -/
def arePlain : List Data → Bool
  | [] => true
  | d :: rest => isPlain d && arePlain rest

/-- `isPlain` for every key and value of a map. -/
def entriesArePlain : List (Data × Data) → Bool
  | [] => true
  | (k, v) :: rest => isPlain k && isPlain v && entriesArePlain rest

end

end Data

end DeltaForest
