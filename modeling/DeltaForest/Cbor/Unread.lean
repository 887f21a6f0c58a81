import DeltaForest.Cbor.Head
import DeltaForest.Data

/-!
# Items that are walked through

An item of unknown meaning cannot be left out in one step: it is walked through, be it to pass it
over or to take it apart as a whole. On the way every list, every map and every tag is a step down,
and no walk goes deeper than 256 steps. Numbers are understood on the way: the tags 2 and 3 in
front of up to 16 bytes in one piece make a number, which has to be at least `-2^127`, and take no
step.
-/

namespace DeltaForest.Cbor

/-- How many lists, maps and tags may stand inside one another. -/
def depthLimit : Nat := 256

/-- Whether a tagged item is a number: a tag with up to 16 bytes in one piece behind it. -/
def isLongNumber (tag : Nat) : Data → Bool
  | .bytes b => (tag = 2 || tag = 3) && b.length ≤ 16
  | _ => false

/-- Whether the number that a tag makes of an item is at least `-2^127`. -/
def isUnderstood (tag : Nat) : Data → Bool
  | .bytes b => tag = 2 || ofBigEndian b < 1 <<< 127
  | _ => true

end DeltaForest.Cbor

namespace DeltaForest.Data

open Cbor

mutual

/-- Whether a tree can be walked through with so many steps down. -/
def isWalkable (room : Nat) : Data → Bool
  | .list items =>
    match room with
    | 0 => false
    | room + 1 => areWalkable room items
  | .map entries =>
    match room with
    | 0 => false
    | room + 1 => entriesAreWalkable room entries
  | .tagged tag d =>
    if isLongNumber tag d then isUnderstood tag d
    else
      match room with
      | 0 => false
      | room + 1 => isWalkable room d
  | _ => true

/-- `isWalkable` for every item of a list. -/
def areWalkable (room : Nat) : List Data → Bool
  | [] => true
  | d :: rest => isWalkable room d && areWalkable room rest

/-- `isWalkable` for every key and value of a map. -/
def entriesAreWalkable (room : Nat) : List (Data × Data) → Bool
  | [] => true
  | (k, v) :: rest => isWalkable room k && isWalkable room v && entriesAreWalkable room rest

end

end DeltaForest.Data
