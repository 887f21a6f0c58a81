import DeltaForest.Pointer
import DeltaForest.Text.Quoted

/-!
# Languages

A language says which nodes there can be: its classifiers, and for each of them the features that
its nodes may have. A feature is a property with a type of values, a containment that holds nodes
as children, or a reference to nodes elsewhere.
-/

namespace DeltaForest

/-- The values that a property can have. -/
inductive DataType
  | boolean
  | integer
  | string
  /-- One of several words. -/
  | enumeration (literals : List String)
  deriving DecidableEq, Repr, Inhabited

namespace DataType

/-- A type of values as it is named in an error message. -/
def description : DataType → String
  | boolean => "Boolean"
  | integer => "Integer"
  | string => "String"
  | enumeration literals => "Enumeration \x7b literals: " ++ Text.quotedList literals ++ " \x7d"

end DataType

/-- What nodes of a classifier are. -/
inductive ClassifierKind
  /-- Roots of partitions or children of other nodes. -/
  | concept
  /-- Remarks that are attached to other nodes. -/
  | annotation
  /-- Features that several classifiers have in common. -/
  | interface
  deriving DecidableEq, Repr, Inhabited

namespace ClassifierKind

/-- The word for a kind. -/
def word : ClassifierKind → String
  | concept => "concept"
  | annotation => "annotation"
  | interface => "interface"

/-- The words for the kinds. -/
def words : List String := ["concept", "annotation", "interface"]

/-- The kind that a word stands for. -/
def ofWord? (s : String) : Option ClassifierKind :=
  if s = "concept" then some concept
  else if s = "annotation" then some annotation
  else if s = "interface" then some interface
  else none

end ClassifierKind

/-- What a feature holds. -/
inductive FeatureKind
  | property (type : DataType)
  /-- Children, at most one unless `multiple`. -/
  | containment (multiple : Bool)
  /-- Entries that refer to nodes, at most one unless `multiple`. -/
  | reference (multiple : Bool)
  deriving DecidableEq, Repr, Inhabited

/-- A feature of a classifier. -/
structure Feature where
  key : String
  name : String
  kind : FeatureKind
  deriving DecidableEq, Repr, Inhabited

/-- A classifier of a language. -/
structure Classifier where
  key : String
  name : String
  kind : ClassifierKind
  /-- Whether its nodes can be roots of partitions. -/
  isPartition : Bool
  features : List Feature
  deriving DecidableEq, Repr, Inhabited

/-- A language. -/
structure Language where
  key : String
  version : String
  name : String
  classifiers : List Classifier
  deriving DecidableEq, Repr, Inhabited

/-- The pointer to an element of a language. -/
def Language.pointer (l : Language) (key : String) : Pointer :=
  ⟨l.key, l.version, key⟩

/-! ## In files and messages -/

instance : Wire DataType where
  toData
    | .boolean => .object [("type", toData "boolean")]
    | .integer => .object [("type", toData "integer")]
    | .string => .object [("type", toData "string")]
    | .enumeration literals =>
      .object [("type", toData "enumeration"), ("literals", toData literals)]
  ofData src d :=
    (d.union? src "type").bind fun (tag, fields) =>
      ((Label.ofData src tag).bind
          (Label.among ["boolean", "integer", "string", "enumeration"])).bind fun name =>
        Fields.Reader.whole
          (if name = "boolean" then pure .boolean
          else if name = "integer" then pure .integer
          else if name = "string" then pure .string
          else do
            let literals ← .required "literals"
            return .enumeration literals)
          .part fields

instance : Wire ClassifierKind where
  toData kind := toData kind.word
  ofData src d := (Label.choice? src ClassifierKind.words d).bind ClassifierKind.ofWord?

namespace FeatureKind

/-- The word for a kind. -/
def word : FeatureKind → String
  | property _ => "property"
  | containment _ => "containment"
  | reference _ => "reference"

/-- The words for the kinds. -/
def words : List String := ["property", "containment", "reference"]

/-- A kind as fields of its feature. -/
def toFields : FeatureKind → List (String × Data)
  | property type => [("kind", toData "property"), ("dataType", toData type)]
  | containment multiple => [("kind", toData "containment"), ("multiple", toData multiple)]
  | reference multiple => [("kind", toData "reference"), ("multiple", toData multiple)]

/-- Reads the fields that come with a word. -/
def reader (word : String) : Fields.Reader FeatureKind :=
  if word = "property" then return property (← .required "dataType")
  else if word = "containment" then return containment (← .required "multiple")
  else return reference (← .required "multiple")

end FeatureKind

instance : Wire Feature where
  toData f := .object <|
    [("key", toData f.key), ("name", toData f.name)] ++ f.kind.toFields
  ofData src d :=
    (d.flat? src ["key", "name"]
      (do
        let key : String ← .required "key"
        let name : String ← .required "name"
        return (key, name))
      (kindOf? "kind" FeatureKind.words FeatureKind.reader)).map
      fun ((key, name), kind) => ⟨key, name, kind⟩

instance : Wire Classifier where
  toData c := .object
    [("key", toData c.key), ("name", toData c.name), ("kind", toData c.kind),
      ("partition", toData c.isPartition), ("features", toData c.features)]
  ofData src d := d.record? src do
    let key ← .required "key"
    let name ← .required "name"
    let kind ← .required "kind"
    let isPartition ← .defaulted "partition" false
    let features ← .defaulted "features" []
    return ⟨key, name, kind, isPartition, features⟩

instance : Wire Language where
  toData l := .object
    [("key", toData l.key), ("version", toData l.version), ("name", toData l.name),
      ("classifiers", toData l.classifiers)]
  ofData src d := d.record? src do
    let key ← .required "key"
    let version ← .required "version"
    let name ← .required "name"
    let classifiers ← .defaulted "classifiers" []
    return ⟨key, version, name, classifiers⟩

end DeltaForest
