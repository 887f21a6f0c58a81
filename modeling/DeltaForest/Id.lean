import DeltaForest.Wire.Record
import Std.Data.ExtTreeMap

/-!
# Identifiers

Nodes, participations, commands and queries are named by texts that have no meaning of their own.
A command is known across participations by its source: the participation that issued it and its
id there. Every change of a forest remembers its origin: a counter value if it was made in the
forest itself, or the sources of the commands it stems from.
-/

namespace DeltaForest

/-- The id of a node. -/
structure NodeId where
  text : String
  deriving DecidableEq, Repr, Inhabited

/-- The id of a participation: one client in one session with a repository. -/
structure ParticipationId where
  text : String
  deriving DecidableEq, Repr, Inhabited

/-- The id of a command, unique within a participation. -/
structure CommandId where
  text : String
  deriving DecidableEq, Repr, Inhabited

/-- The id that ties a query request to its response. -/
structure QueryId where
  text : String
  deriving DecidableEq, Repr, Inhabited

/-- Where a command comes from. -/
structure CommandSource where
  participation : ParticipationId
  command : CommandId
  deriving DecidableEq, Repr, Inhabited

/-- A source in one text: both ids, with a slash between them. -/
def CommandSource.text (source : CommandSource) : String :=
  source.participation.text ++ "/" ++ source.command.text

/-- Where a change of a forest comes from. -/
inductive Origin
  /-- It is the change with this number among those made in the forest itself. -/
  | here (number : Nat)
  /-- It stems from these commands. -/
  | commands (sources : List CommandSource)
  deriving DecidableEq, Repr, Inhabited

/-- Whether a change was made in the forest itself. -/
def Origin.isHere : Origin → Bool
  | .here _ => true
  | .commands _ => false

/-! ## Order of node ids -/

namespace NodeId

instance : Ord NodeId := ⟨fun a b => compare a.text b.text⟩

instance : Std.TransOrd NodeId where
  eq_swap {a b} := Std.OrientedOrd.eq_swap (a := a.text) (b := b.text)
  isLE_trans {a b c} := Std.TransOrd.isLE_trans (a := a.text) (b := b.text) (c := c.text)

instance : Std.LawfulEqOrd NodeId where
  compare_self {a} := Std.ReflOrd.compare_self (a := a.text)
  eq_of_compare {a b} h := by
    cases a
    cases b
    exact congrArg NodeId.mk (Std.LawfulEqOrd.eq_of_compare h)

end NodeId

/-! ## In messages -/

instance : Wire NodeId where
  toData id := toData id.text
  ofData src d := (ofData src d).map NodeId.mk

instance : Wire ParticipationId where
  toData id := toData id.text
  ofData src d := (ofData src d).map ParticipationId.mk

instance : Wire CommandId where
  toData id := toData id.text
  ofData src d := (ofData src d).map CommandId.mk

instance : Wire QueryId where
  toData id := toData id.text
  ofData src d := (ofData src d).map QueryId.mk

instance : Wire CommandSource where
  toData source := .object
    [("participationId", toData source.participation), ("commandId", toData source.command)]
  ofData src d := d.record? src do
    let participation ← .required "participationId"
    let command ← .required "commandId"
    return ⟨participation, command⟩

end DeltaForest
