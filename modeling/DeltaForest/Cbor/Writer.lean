import DeltaForest.Cbor.Head
import DeltaForest.Data

/-!
# CBOR bytes

A data tree as CBOR, every number and length in as few bytes as it takes. A list is written with
its length in front. Whether a map is too is decided by a rule on its entries: a writer that has
to send a map before it knows how many entries there are leaves the length open.
-/

namespace DeltaForest.Data

open Cbor

/-- The bytes of a text. -/
def utf8 (s : String) : List UInt8 := s.toUTF8.data.toList

mutual

/-- A tree as CBOR. The length of a map is left open if `isOpen` says so about its entries. -/
def toCbor (isOpen : List (Data × Data) → Bool) : Data → List UInt8
  | .null => Head.toBytes (.simple 22)
  | .bool b => Head.toBytes (.simple (if b then 21 else 20))
  | .nat n => Head.toBytes (.nat n)
  | .negative n => Head.toBytes (.negative n)
  | .real => Head.toBytes .real
  | .unreadable => Head.toBytes (.simple 23)
  | .text s => Head.toBytes (.text (some (utf8 s).length)) ++ utf8 s
  | .bytes b => Head.toBytes (.bytes (some b.length)) ++ b
  | .pieces d => toCbor isOpen d
  | .list items => Head.toBytes (.list (some items.length)) ++ toCborItems isOpen items
  | .map entries =>
    if isOpen entries then
      Head.toBytes (.map none) ++ toCborEntries isOpen entries ++ Head.toBytes .stop
    else Head.toBytes (.map (some entries.length)) ++ toCborEntries isOpen entries
  | .tagged tag d => Head.toBytes (.tag tag) ++ toCbor isOpen d

/-- The items of a list, one behind the other. -/
def toCborItems (isOpen : List (Data × Data) → Bool) : List Data → List UInt8
  | [] => []
  | d :: rest => toCbor isOpen d ++ toCborItems isOpen rest

/-- The keys and values of a map, one behind the other. -/
def toCborEntries (isOpen : List (Data × Data) → Bool) : List (Data × Data) → List UInt8
  | [] => []
  | (k, v) :: rest => toCbor isOpen k ++ toCbor isOpen v ++ toCborEntries isOpen rest

end

end DeltaForest.Data
