import DeltaForest.Wire

/-!
# Records in data trees

A record is a map from the names of its fields to their values, in a fixed order when written and
in any order when read. Unknown fields are passed over, a field that stands twice is refused.
Outside CBOR a record may also be given as the plain list of its values.

Fields are read in their order, and the reader remembers which it has asked for, so that the same
description serves both forms. Three kinds of field are told apart: a `required` one has to be
there; an `optional` one may be left out of a map; a `defaulted` one may be left out of a list as
well.

Two shapes are built on records. A `union` is a record with one more field whose value says which
record the others make up. A `flat` record has fields of its own and, at the same level, the
fields of such a union.
-/

namespace DeltaForest

/-- The fields of a record as they were found: by label, or one behind the other. -/
inductive Fields
  | labelled (entries : List (Label × Data))
  | listed (items : List Data)

/-- A reader of fields: it is given where the fields come from, what they are and the names asked
    for so far, the last one in front, and returns them with the ones it has asked for itself. -/
structure Fields.Reader (α : Type) where
  run : Source → Fields → List String → Option (α × List String)

namespace Fields

/-- The value of the field with a name at a position: nothing if it is missing, and refused if it
    stands twice. -/
def find? (fields : Fields) (position : Nat) (name : String) : Option (Option Data) :=
  match fields with
  | .listed items => some items[position]?
  | .labelled entries =>
    match entries.filter (·.1.isAt position name) with
    | [] => some none
    | [(_, d)] => some (some d)
    | _ => none

/-- Whether fields stand one behind the other. -/
def isListed : Fields → Bool
  | .listed _ => true
  | .labelled _ => false

/-- Whether the fields that were not asked for can be passed over. -/
def passesOver (src : Source) (asked : List String) : Fields → Bool
  | .listed items => items.length ≤ asked.length
  | .labelled entries =>
    entries.all fun (label, d) => asked.any (label == .name ·) || src.passesOver d

end Fields

namespace Fields.Reader

variable {α β : Type}

instance : Monad Fields.Reader where
  pure a := ⟨fun _ _ asked => some (a, asked)⟩
  bind r next := ⟨fun src fields asked =>
    (r.run src fields asked).bind fun (a, asked) => (next a).run src fields asked⟩

/-- Reads the next field, for which `missing` stands in if it is not there. -/
def field [Wire α] (name : String) (missing : Fields → Option α) : Reader α :=
  ⟨fun src fields asked =>
    (fields.find? asked.length name).bind fun
      | some d => (ofData src d).map (·, name :: asked)
      | none => (missing fields).map (·, name :: asked)⟩

/-- Reads a field that has to be there. -/
def required [Wire α] (name : String) : Reader α :=
  field name fun _ => none

/-- Reads a field that may be left out of a map. -/
def optional [Wire α] (name : String) : Reader (Option α) :=
  field name fun fields => if fields.isListed then none else some none

/-- Reads nothing and refuses. -/
def refuse : Reader α := ⟨fun _ _ _ => none⟩

/-- Reads a field with a value to take if it is left out. -/
def defaulted [Wire α] (name : String) (value : α) : Reader α :=
  field name fun _ => some value

/-- Reads a whole record. If the fields stand one behind the other, there may be no more of them
    than the record has; else those that it does not have are passed over. -/
def whole (r : Reader α) (src : Source) (fields : Fields) : Option α :=
  (r.run src fields []).bind fun (a, asked) =>
    if fields.passesOver src asked then some a else none

end Fields.Reader

namespace Data

variable {α β : Type}

/-- The entries of a map by label. -/
def labels? (src : Source) (entries : List (Data × Data)) : Option (List (Label × Data)) :=
  entries.mapM fun (k, d) => (Label.ofData src k).map (·, d)

/-- Reads a record. -/
def record? (src : Source) (d : Data) (r : Fields.Reader α) : Option α :=
  match src, d.reached src with
  | .cbor _, .list _ => none
  | src, .list items => r.whole src (.listed items)
  | src, .map entries =>
    (labels? src entries).bind fun entries => r.whole src.inside (.labelled entries)
  | _, _ => none

/-- Whether a tree is a certain text, possibly given as bytes. -/
def isText (s : String) : Data → Bool
  | .text t | .pieces (.text t) => t == s
  | .bytes b | .pieces (.bytes b) => Cbor.utf8? b == some s
  | _ => false

/-- What a union is made of: the value of its tag and the other fields, which are a part that was
    taken apart as a whole. In a list the tag stands first. -/
def union? (src : Source) (tag : String) (d : Data) : Option (Data × Fields) :=
  match d with
  | .list (kind :: items) =>
    if items.all src.inside.takesApart then some (kind, .listed items) else none
  | .map entries =>
    let (tags, others) := entries.partition fun (k, _) => isText tag k
    match tags with
    | [(_, kind)] =>
      if others.all fun (k, d) => src.inside.takesApart k && src.inside.takesApart d then
        (labels? .part others).map fun others => (kind, .labelled others)
      else none
    | _ => none
  | _ => none

/-- Reads a flat record: its own fields, given by name, and what the other fields make up. `src` is
    where the fields come from. -/
def flatFields? (src : Source) (entries : List (Label × Data)) (own : List String)
    (r : Fields.Reader α) (kind : List (Label × Data) → Option β) : Option (α × β) := do
  let (mine, others) := entries.partition fun (label, _) => own.any fun s => label == .name s
  if !others.all fun (_, d) => src.takesApart d then none
  let a ← r.whole src (.labelled mine)
  let b ← kind others
  return (a, b)

/-- Reads a flat record. It has to be a map. -/
def flat? (src : Source) (d : Data) (own : List String) (r : Fields.Reader α)
    (kind : List (Label × Data) → Option β) : Option (α × β) :=
  match d.reached src with
  | .map entries =>
    (labels? src entries).bind fun entries => flatFields? src.inside entries own r kind
  | _ => none

end Data

/-- Reads fields whose kind is given by the field `tag`: `names` are the kinds there are, and
    `reader` tells for each of them how the other fields are read. -/
def kindOf? {α : Type} (tag : String) (names : List String) (reader : String → Fields.Reader α)
    (entries : List (Label × Data)) : Option α :=
  let (tags, others) := entries.partition fun (label, _) => label == .name tag
  match tags with
  | [(_, kind)] =>
    ((Label.ofData .part kind).bind (Label.among names)).bind fun name =>
      (reader name).whole .part (.labelled others)
  | _ => none

end DeltaForest
