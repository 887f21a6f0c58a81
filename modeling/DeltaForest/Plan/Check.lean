import DeltaForest.Model

/-!
# What is checked before a change

The checks that planning an edit is made of. Each refuses with the cause that it is about, and a
planner runs them in a fixed order, so that of several things that are wrong the same one is
always named.
-/

namespace DeltaForest

/-- The element at a position of a list of a node. -/
def elementAt {α : Type} (xs : List α) (node : NodeId) (list : NodeList) (index : Nat) :
    Except Fault α :=
  match xs[index]? with
  | some a => .ok a
  | none => .error (.outOfBounds node list index xs.length)

/-- Refuses a position behind the end of a list of a node. -/
def checkInsert {α : Type} (xs : List α) (node : NodeId) (list : NodeList) (index : Nat) :
    Except Fault Unit :=
  if index ≤ xs.length then .ok () else .error (.outOfBounds node list index xs.length)

/-- Refuses one more than `count` children or entries of a feature that can have only one. -/
def checkRoom (n : Node) (feature : FeatureInfo) (count : Nat) : Except Fault Unit :=
  if feature.isMultiple || count = 0 then .ok () else .error (.overfull n.id feature.pointer)

/-- Refuses a value that is none of the type of its property. -/
def checkValue (feature : FeatureInfo) (v : Value) : Except Fault Unit :=
  match feature.dataType? with
  | none => .error (.invalidValue feature.pointer v.text .property)
  | some type =>
    if v.conforms type then .ok ()
    else .error (.invalidValue feature.pointer v.text (.valueOf type))

/-- Refuses another node than the expected one. -/
def checkExpected (expected found : NodeId) : Except Fault Unit :=
  if expected = found then .ok () else .error (.unexpectedNode expected found)

/-- Refuses an entry that says nothing. -/
def Entry.check (e : Entry) : Except Fault Unit :=
  if e.isEmpty then .error (.missingValue "reference target or resolve info") else .ok ()

namespace Model

variable (m : Model)

/-- A feature of a kind on a node whose classifier declares it. -/
def slot (kind : ElementKind) (id : NodeId) (feature : Handle) :
    Except Fault (Node × FeatureInfo) := do
  let info ← m.types.featureAt kind feature
  let n ← m.node id
  m.checkApplicable n info
  return (n, info)

/-- Fails because the half of an entry that is to be added is there. -/
def alreadySet {α : Type} (place : Place Handle) : Except Fault α := do
  throw (.alreadySet place.owner (← m.types.pointer place.feature))

/-- Fails because the half of an entry that is to be edited is not there. -/
def unset {α : Type} (place : Place Handle) : Except Fault α := do
  throw (.unset place.owner (← m.types.pointer place.feature))

/-- The entry at a place. -/
def entryAt (place : Place Handle) : Except Fault Entry := do
  let (n, info) ← m.slot .reference place.owner place.feature
  elementAt (n.entries place.feature) place.owner (.feature info.pointer) place.index

/-- Refuses an entry that says nothing or whose target is not there. -/
def checkEntry (e : Entry) : Except Fault Unit := do
  e.check
  match e.target with
  | some target => let _ ← m.node target
  | none => pure ()

/-- Refuses a node that is no annotation. -/
def checkAnnotation (n : Node) : Except Fault Unit := do
  let info ← m.types.classifierAt n.classifier
  if info.kind = ClassifierKind.annotation then return ()
  throw (.kindMismatch info.pointer ElementKind.annotation)

/-- Refuses to move a node below itself. -/
def checkNotBelow (moved target : NodeId) : Except Fault Unit :=
  if m.nodes.isAncestorOrSelf moved target then .error (.containmentCycle moved target)
  else .ok ()

/-- Refuses to put a node in the place of one that contains it. -/
def checkNotReplacingOwner (moved replaced : NodeId) : Except Fault Unit :=
  if m.nodes.isAncestorOrSelf replaced moved then
    .error (.invalidMove (.replacesOwner moved replaced))
  else .ok ()

/-! ## Subtrees that enter or leave -/

/-- Checks a property of a new node. -/
def checkNewProperty (n : Node) (property : Handle) (v : Value) : Except Fault Unit := do
  let info ← m.types.featureAt .property property
  m.checkApplicable n info
  checkValue info v

/-- Checks the number of children or entries that a new node has in a feature. -/
def checkNewList (kind : ElementKind) (n : Node) (feature : Handle) (count : Nat) :
    Except Fault Unit := do
  let info ← m.types.featureAt kind feature
  m.checkApplicable n info
  -- One element fits whatever feature it is, and so does an empty list.
  if count > 1 then checkRoom n info 1

/-- Checks an entry of a new node: its target has to be there or come with it. -/
def checkNewEntry (coming : List NodeId) (e : Entry) : Except Fault Unit := do
  e.check
  match e.target with
  | some target =>
    if target ∉ coming && !m.nodes.contains target then throw (.unknownNode target)
  | none => pure ()

/-- Checks a node of a subtree that is to enter. -/
def checkNewNode (s : Subtree) (n : Node) : Except Fault Unit := do
  let coming := s.nodes.map Node.id
  let _ ← m.types.classifierAt n.classifier
  n.properties.toList.forM fun (p, v) => m.checkNewProperty n p v
  n.containments.toList.forM fun (c, children) =>
    m.checkNewList .containment n c children.length
  n.references.toList.forM fun (r, entries) => do
    m.checkNewList .reference n r entries.length
    entries.forM (m.checkNewEntry coming)
  -- Annotations are ids here; one that does not come along is not looked at.
  n.annotations.forM fun annotation =>
    match s.nodes.find? (·.id = annotation) with
    | some a => m.checkAnnotation a
    | none => .ok ()

/-- Checks a subtree that is to enter: its ids are free, its features are declared and hold what
    they may hold, its annotations are annotations, and the targets of its references are there
    or come with it. -/
def checkNew (s : Subtree) : Except Fault Unit := do
  m.nodes.checkVacant s
  s.nodes.forM (m.checkNewNode s)

/-- A subtree that is to leave. It may not be the target of a reference from outside. -/
def leaving (root : NodeId) : Except Fault Subtree := do
  let s ← m.nodes.collect root
  let gone := s.nodes.map Node.id
  -- References from inside leave with the subtree.
  let outside := m.nodes.toList.filter fun (id, _) => id ∉ gone
  match outside.findSome? fun (id, n) => (n.targets.find? (· ∈ gone)).map (·, id) with
  | some (target, referrer) => throw (.stillReferenced target referrer)
  | none => return s

end Model

end DeltaForest
