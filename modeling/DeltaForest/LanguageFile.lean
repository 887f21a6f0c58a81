import DeltaForest.Json.Reader
import DeltaForest.Trouble
import DeltaForest.TypeRegistry

/-!
# Language files

Languages are defined in JSON files, each with one language or a list of them.
-/

namespace DeltaForest.LanguageFile

/-- The languages that a JSON text defines. What it is shows only when it is read, so it is taken
    apart as a whole first. -/
def languages? (text : String) : Option (List Language) := do
  let d ← Json.read text
  if d.isPlain then
    match ofData .part d with
    | some language => some [language]
    | none => ofData .part d
  else none

/-- Registers the languages of a file. -/
def load (types : TypeRegistry) (path : String) (content : Option (List UInt8)) :
    Except Trouble TypeRegistry := do
  match content.bind Cbor.utf8? with
  | none => throw (.unreadable path)
  | some text =>
    match languages? text with
    | none => throw (.noLanguage path)
    | some languages =>
      languages.foldlM
        (fun types l => (types.register l).mapError (.language l.key path)) types

/-- Registers the languages of files, one file after the other. `read` tells what a file holds, if
    it can be read. -/
def loadAll (read : String → Option (List UInt8)) (paths : List String) :
    Except Trouble TypeRegistry :=
  paths.foldlM (fun types path => load types path (read path)) .empty

end DeltaForest.LanguageFile
