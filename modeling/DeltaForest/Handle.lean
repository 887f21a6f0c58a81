import Std.Data.ExtTreeMap

/-!
# Handles

Inside a forest, classifiers and features are not named by pointers but by handles: numbers that a
type registry hands out in the order of registration. The features of a node are kept in the order
of their handles.
-/

namespace DeltaForest

/-- A number that stands for a classifier or feature of a type registry. -/
structure Handle where
  index : Nat
  deriving DecidableEq, Repr, Inhabited

namespace Handle

/-- How a handle is written. -/
def text (h : Handle) : String := "#" ++ toString h.index

instance : Ord Handle := ⟨fun a b => compare a.index b.index⟩

instance : Std.TransOrd Handle where
  eq_swap {a b} := Std.OrientedOrd.eq_swap (a := a.index) (b := b.index)
  isLE_trans {a b c} := Std.TransOrd.isLE_trans (a := a.index) (b := b.index) (c := c.index)

instance : Std.LawfulEqOrd Handle where
  eq_of_compare {a b} h := by
    cases a
    cases b
    exact congrArg Handle.mk (Std.LawfulEqOrd.eq_of_compare h)
  compare_self {a} := Std.ReflOrd.compare_self (a := a.index)

end Handle

end DeltaForest
