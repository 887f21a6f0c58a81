import DeltaForest.Fault

/-!
# Type registry

The languages that a forest knows, as one table of classifiers and features. Registering a
language appends its elements in their order, every classifier followed by its features, and the
position in the table is the handle of an element: handles are dense and never change. A language
is registered as a whole or, if one of its pointers is taken or stands twice, not at all.
-/

namespace DeltaForest

/-- A registered classifier. -/
structure ClassifierInfo where
  handle : Handle
  pointer : Pointer
  name : String
  kind : ClassifierKind
  isPartition : Bool
  /-- The features in the order in which they were declared. -/
  features : List Handle
  deriving DecidableEq, Repr, Inhabited

/-- A registered feature. -/
structure FeatureInfo where
  handle : Handle
  pointer : Pointer
  name : String
  /-- The classifier that declares it. -/
  owner : Handle
  kind : FeatureKind
  deriving DecidableEq, Repr, Inhabited

namespace FeatureInfo

/-- The type of the values, if the feature is a property. -/
def dataType? (f : FeatureInfo) : Option DataType :=
  match f.kind with
  | .property type => some type
  | _ => none

/-- Whether there may be more than one child or entry. -/
def isMultiple (f : FeatureInfo) : Bool :=
  match f.kind with
  | .containment multiple | .reference multiple => multiple
  | .property _ => false

/-- What kind of element the feature is. -/
def elementKind (f : FeatureInfo) : ElementKind :=
  match f.kind with
  | .property _ => .property
  | .containment _ => .containment
  | .reference _ => .reference

end FeatureInfo

/-- A registered classifier or feature. -/
inductive Element
  | classifier (info : ClassifierInfo)
  | feature (info : FeatureInfo)
  deriving DecidableEq, Repr, Inhabited

namespace Element

/-- The pointer to an element. -/
def pointer : Element → Pointer
  | classifier info => info.pointer
  | feature info => info.pointer

/-- The handle of an element. -/
def handle : Element → Handle
  | classifier info => info.handle
  | feature info => info.handle

end Element

/-- The registered languages. -/
structure TypeRegistry where
  /-- The elements by handle. -/
  elements : List Element
  /-- Key and version of every language, in the order of registration. -/
  languages : List (String × String)
  deriving DecidableEq, Repr, Inhabited

namespace TypeRegistry

/-- The registry without languages. -/
def empty : TypeRegistry := ⟨[], []⟩

/-! ## Registration -/

/-- The keys of a language in the order of registration. -/
def keys (l : Language) : List String :=
  l.classifiers.flatMap fun c => c.key :: c.features.map (·.key)

/-- The first of some pointers that is among `taken` or among those before it. -/
def firstTaken (taken : List Pointer) : List Pointer → Option Pointer
  | [] => none
  | p :: rest => if p ∈ taken then some p else firstTaken (p :: taken) rest

/-- The elements of a classifier whose handle is `next`. -/
def elementsOf (l : Language) (next : Nat) (c : Classifier) : List Element :=
  .classifier
      { handle := ⟨next⟩
        pointer := l.pointer c.key
        name := c.name
        kind := c.kind
        isPartition := c.isPartition
        features := (List.range c.features.length).map fun i => ⟨next + 1 + i⟩ } ::
    c.features.mapIdx fun i f =>
      .feature
        { handle := ⟨next + 1 + i⟩
          pointer := l.pointer f.key
          name := f.name
          owner := ⟨next⟩
          kind := f.kind }

/-- The elements of classifiers, with handles from `next` on. -/
def elementsFrom (l : Language) (next : Nat) : List Classifier → List Element
  | [] => []
  | c :: rest => elementsOf l next c ++ elementsFrom l (next + 1 + c.features.length) rest

/-- Appends a language. -/
def register (r : TypeRegistry) (l : Language) : Except Fault TypeRegistry :=
  match firstTaken (r.elements.map Element.pointer) ((keys l).map l.pointer) with
  | some p => .error (.duplicatePointer p)
  | none => .ok
    { elements := r.elements ++ elementsFrom l r.elements.length l.classifiers
      languages := r.languages ++ [(l.key, l.version)] }

/-- Appends languages one after the other. -/
def registerAll (r : TypeRegistry) (languages : List Language) : Except Fault TypeRegistry :=
  languages.foldlM register r

/-- Whether a version of a language is registered. -/
def knows (r : TypeRegistry) (key version : String) : Bool :=
  (key, version) ∈ r.languages

/-! ## Look-up by handle -/

/-- The element with a handle. -/
def element? (r : TypeRegistry) (h : Handle) : Option Element :=
  r.elements[h.index]?

/-- The pointer to the element with a handle. -/
def pointer? (r : TypeRegistry) (h : Handle) : Option Pointer :=
  (r.element? h).map Element.pointer

/-- The pointer to the element with a handle. -/
def pointer (r : TypeRegistry) (h : Handle) : Except Fault Pointer :=
  match r.pointer? h with
  | some p => .ok p
  | none => .error (.foreignHandle h)

/-- The classifier with a handle. -/
def classifier? (r : TypeRegistry) (h : Handle) : Option ClassifierInfo :=
  match r.element? h with
  | some (.classifier info) => some info
  | _ => none

/-- The feature with a handle. -/
def feature? (r : TypeRegistry) (h : Handle) : Option FeatureInfo :=
  match r.element? h with
  | some (.feature info) => some info
  | _ => none

/-- The failure that a handle does not name what it should. -/
def mismatch {α : Type} (r : TypeRegistry) (h : Handle) (expected : ElementKind) :
    Except Fault α := do
  let p ← r.pointer h
  throw (.kindMismatch p expected)

/-- The classifier with a handle. -/
def classifierAt (r : TypeRegistry) (h : Handle) : Except Fault ClassifierInfo :=
  match r.classifier? h with
  | some info => .ok info
  | none => r.mismatch h .classifier

/-- The feature of a kind with a handle. -/
def featureAt (r : TypeRegistry) (kind : ElementKind) (h : Handle) : Except Fault FeatureInfo :=
  match (r.feature? h).filter (·.elementKind = kind) with
  | some info => .ok info
  | none => r.mismatch h kind

/-- Whether a classifier declares a feature. -/
def declares (r : TypeRegistry) (classifier feature : Handle) : Bool :=
  match r.classifier? classifier with
  | some info => feature ∈ info.features
  | none => false

/-! ## Look-up by pointer -/

/-- The handle of the element with a pointer. -/
def handle? (r : TypeRegistry) (p : Pointer) : Option Handle :=
  (r.elements.find? (·.pointer = p)).map Element.handle

/-- The classifier with a pointer. -/
def classifier (r : TypeRegistry) (p : Pointer) : Except Fault ClassifierInfo :=
  match r.handle? p with
  | none => .error (.unknownClassifier p)
  | some h =>
    match r.classifier? h with
    | some info => .ok info
    | none => .error (.kindMismatch p .classifier)

/-- The feature of a kind with a pointer. -/
def feature (r : TypeRegistry) (kind : ElementKind) (p : Pointer) : Except Fault FeatureInfo :=
  match r.handle? p with
  | none => .error (.unknownFeature p)
  | some h =>
    match (r.feature? h).filter (·.elementKind = kind) with
    | some info => .ok info
    | none => .error (.kindMismatch p kind)

end TypeRegistry

end DeltaForest
