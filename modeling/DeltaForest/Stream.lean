import DeltaForest.Fault

/-!
# Streams of numbered events

Events are numbered by 64-bit numbers. The sender has a `Counter` for them, the receiver a
`Tracker` of the number that has to come next: a lower number is one that has been seen, a higher
one means that something is missing. Ids of commands are counted in the same way.
-/

namespace DeltaForest

/-- A counter of 64 bits, which starts again from zero behind the highest number. -/
structure Counter where
  next : UInt64
  deriving DecidableEq, Repr, Inhabited

/-- The next number and the counter behind it. -/
def Counter.take (c : Counter) : UInt64 × Counter := (c.next, ⟨c.next + 1⟩)

/-- A source of command ids: a fixed text and a number. -/
structure CommandIds where
  stem : String
  counter : Counter
  deriving DecidableEq, Repr, Inhabited

/-- The next id and the source behind it. -/
def CommandIds.take (ids : CommandIds) : CommandId × CommandIds :=
  let (n, counter) := ids.counter.take
  (⟨ids.stem ++ "-" ++ toString n⟩, { ids with counter := counter })

/-- What is known about the next number to come. -/
structure Tracker where
  /-- The number that has to come next; at the beginning it may be unknown. -/
  expected : Option UInt64
  deriving DecidableEq, Repr, Inhabited

/-- What to do with a number. -/
inductive Admission
  /-- It is the next one. -/
  | accept
  /-- It has been seen. -/
  | duplicate
  deriving DecidableEq, Repr, Inhabited

namespace Tracker

/-- What to do with a number that comes. A number that leaves others out is refused. -/
def check (t : Tracker) (received : UInt64) : Except Fault Admission :=
  match t.expected with
  | none => .ok .accept
  | some expected =>
    if received = expected then .ok .accept
    else if received < expected then .ok .duplicate
    else .error (.sequenceGap expected received)

/-- The number behind another one; the highest number stays. -/
def after (n : UInt64) : UInt64 := if n + 1 = 0 then n else n + 1

/-- What is known once a number has been made use of. -/
def behind (received : UInt64) : Tracker := ⟨some (after received)⟩

end Tracker

end DeltaForest
