import DeltaForest.Wire.Record

/-!
# Pointers to types

Classifiers and features are named across languages by a pointer: the key and version of the
language and the key of the element within it.
-/

namespace DeltaForest

/-- The name of a classifier or feature. -/
structure Pointer where
  language : String
  version : String
  key : String
  deriving DecidableEq, Repr, Inhabited

/-- A pointer in one text, `language@version:key`. -/
def Pointer.text (p : Pointer) : String :=
  p.language ++ "@" ++ p.version ++ ":" ++ p.key

instance : Wire Pointer where
  toData p := .object
    [("language", toData p.language), ("version", toData p.version), ("key", toData p.key)]
  ofData src d := d.record? src do
    let language ← .required "language"
    let version ← .required "version"
    let key ← .required "key"
    return ⟨language, version, key⟩

end DeltaForest
