/-!
# Editing a list at a position

Each edit says nothing if the list does not reach that far.
-/

namespace DeltaForest.Position

variable {α : Type}

/-- A list with one more element at a position, at the latest behind its end. -/
def insert? (xs : List α) (i : Nat) (a : α) : Option (List α) :=
  if i ≤ xs.length then some (xs.insertIdx i a) else none

/-- The element at a position and the list without it. -/
def remove? (xs : List α) (i : Nat) : Option (α × List α) :=
  xs[i]?.map fun a => (a, xs.eraseIdx i)

/-- A list with another element at a position. -/
def replace? (xs : List α) (i : Nat) (a : α) : Option (List α) :=
  if i < xs.length then some (xs.set i a) else none

end DeltaForest.Position
