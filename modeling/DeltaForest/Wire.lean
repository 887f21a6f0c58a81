import DeltaForest.Cbor.Reader
import DeltaForest.Cbor.Unread

/-!
# Values in data trees

`Wire` is the class of types that travel in messages: each has a tree for every value and a reader
that gets the value back. How strictly a reader reads depends on where the tree comes from.

* Straight from JSON or CBOR, every value has its own kind of item. In CBOR, tags in front of an
  item are skipped.
* Some parts of a message can be understood only after one of their own fields, which says what
  kind of part it is. Such a part is taken apart as a whole first, and what comes out of it is read
  more generously: a byte string may stand for a text, and a position for a name.

A tree that nobody asks for is passed over. In CBOR it has to be walked through for that, and so
has a part that is taken apart (`Source.passesOver`, `Source.takesApart`).
-/

namespace DeltaForest

/-- Where a tree that is being read comes from. -/
inductive Source
  | json
  /-- Straight from CBOR, inside so many lists and maps. -/
  | cbor (around : Nat)
  /-- A part that was taken apart as a whole. -/
  | part
  deriving DecidableEq, Repr

namespace Source

/-- Whether a tree comes straight from CBOR. -/
def isCbor : Source → Bool
  | cbor _ => true
  | _ => false

/-- Where the trees in a list or map come from. -/
def inside : Source → Source
  | cbor around => cbor (around + 1)
  | src => src

/-- Whether a tree that nobody asks for can be passed over. -/
def passesOver (src : Source) (d : Data) : Bool :=
  match src with
  | cbor around => d.isWalkable (Cbor.depthLimit - around)
  | _ => true

/-- Whether a tree can be taken apart as a whole. -/
def takesApart (src : Source) (d : Data) : Bool :=
  match src with
  | json => d.isPlain
  | cbor around => d.isWalkable (Cbor.depthLimit - around) && d.isPlain
  | part => true

end Source

/-- The types that travel in messages. -/
class Wire (α : Type) where
  /-- The tree that stands for a value. -/
  toData : α → Data
  /-- The value that a tree stands for. -/
  ofData : Source → Data → Option α

export Wire (toData ofData)

/-! ## Labels -/

/-- What a tree says where a name is expected. -/
inductive Label
  | name (s : String)
  /-- A number, which stands for the name at that position. -/
  | position (n : Nat)
  /-- Bytes that are no text, and so no name. -/
  | nameless
  deriving DecidableEq, Repr

namespace Label

/-- The label that bytes stand for. -/
def ofBytes (bytes : List UInt8) : Label :=
  match Cbor.utf8? bytes with
  | some s => .name s
  | none => .nameless

/-- The longest name, in bytes, that is read straight from CBOR. -/
def cborLimit : Nat := 4096

/-- The label that a tree from CBOR stands for: a text or byte string in one piece. -/
def ofCbor : Data → Option Label
  | .tagged _ d => ofCbor d
  | .text s => if s.utf8ByteSize ≤ cborLimit then some (.name s) else none
  | .bytes b => if b.length ≤ cborLimit then some (ofBytes b) else none
  | _ => none

/-- The label that a tree stands for. -/
def ofData (src : Source) (d : Data) : Option Label :=
  match src, d with
  | .json, .text s => some (.name s)
  | .json, _ => none
  | .cbor _, d => ofCbor d
  | .part, .text s | .part, .pieces (.text s) => some (.name s)
  | .part, .bytes b | .part, .pieces (.bytes b) => some (ofBytes b)
  | .part, .nat n => some (.position n)
  | .part, _ => none

/-- Whether a label means the name at a position. -/
def isAt (position : Nat) (name : String) : Label → Bool
  | .name s => s == name
  | .position n => n == position
  | .nameless => false

/-- The name among `names` that a label means. -/
def among (names : List String) : Label → Option String
  | .name s => if s ∈ names then some s else none
  | .position n => names[n]?
  | .nameless => none

end Label

/-! ## Scalars -/

/-- The number that a tree from CBOR stands for. The tag 2 in front of bytes says that they are the
    digits of a number, the highest first. -/
def natOfCbor : Data → Option Nat
  | .tagged 2 (.bytes b) | .tagged 2 (.pieces (.bytes b)) => some (Cbor.ofBigEndian b)
  | .tagged 2 _ | .tagged 3 _ => none
  | .tagged _ d => natOfCbor d
  | .nat n => some n
  | _ => none

/-- The number below `limit` that a tree stands for. -/
def natBelow (limit : Nat) (src : Source) (d : Data) : Option Nat :=
  let n? := match src, d with
    | .cbor _, d => natOfCbor d
    | _, .nat n => some n
    | _, _ => none
  n?.filter (· < limit)

namespace Data

/-- The item behind its tags. -/
def untagged : Data → Data
  | .tagged _ d => untagged d
  | d => d

/-- The tree to read: tags are skipped in what comes straight from CBOR. -/
def reached (src : Source) (d : Data) : Data :=
  if src.isCbor then d.untagged else d

end Data

/-- The choice among `names` that a tree stands for where one of several words is expected: the
    word, or outside CBOR a map with the word as its only key and nothing behind it. -/
def Label.choice? (src : Source) (names : List String) (d : Data) : Option String :=
  match src, d.reached src with
  | _, .text s | .part, .pieces (.text s) => (Label.name s).among names
  | .cbor _, _ => none
  | src, .map [(k, .null)] => (ofData src k).bind (among names)
  | _, _ => none

instance : Wire Bool where
  toData := .bool
  ofData src d := match d.reached src with
    | .bool b => some b
    | _ => none

instance : Wire String where
  toData := .text
  ofData src d := match d.reached src with
    | .text s | .pieces (.text s) => some s
    | .bytes b | .pieces (.bytes b) => if src = .part then Cbor.utf8? b else none
    | _ => none

/-- A position or a count of 64 bits. -/
instance : Wire Nat where
  toData := .nat
  ofData src d := natBelow UInt64.size src d

instance : Wire UInt64 where
  toData n := .nat n.toNat
  ofData src d := (natBelow UInt64.size src d).map UInt64.ofNat

instance : Wire UInt32 where
  toData n := .nat n.toNat
  ofData src d := (natBelow UInt32.size src d).map UInt32.ofNat

/-! ## Optional values and lists -/

/-- A value that may be missing. Only a bare `null` is nothing: with a tag in front it is read as
    the value. -/
instance {α : Type} [Wire α] : Wire (Option α) where
  toData
    | some a => toData a
    | none => .null
  ofData src
    | .null => some none
    | d => (ofData src d).map some

/-- The items of a list. Straight from CBOR, a byte string stands for the list of its bytes. -/
def itemsOf (src : Source) (d : Data) : Option (List Data) :=
  match src, d.reached src with
  | _, .list items => some items
  | .cbor _, .bytes b | .cbor _, .pieces (.bytes b) => some (b.map fun x => .nat x.toNat)
  | _, _ => none

instance {α : Type} [Wire α] : Wire (List α) where
  toData xs := .list (xs.map toData)
  ofData src d := (itemsOf src d).bind fun items => items.mapM (ofData src.inside)

end DeltaForest
