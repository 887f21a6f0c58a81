/-!
# Decimal integers

A decimal integer is an optional sign, `+` or `-`, followed by one or more ASCII digits; leading
zeros are allowed, anything else around the digits is not.
-/

namespace DeltaForest.Text

/-- The value of an ASCII digit. -/
def digit? (c : Char) : Option Nat :=
  if '0' ≤ c ∧ c ≤ '9' then some (c.toNat - '0'.toNat) else none

/-- Reads digits from left to right behind the value read so far. -/
def digitsFrom (value : Nat) : List Char → Option Nat
  | [] => some value
  | c :: rest => (digit? c).bind fun d => digitsFrom (10 * value + d) rest

/-- The value of a text of one or more digits. -/
def digits? : List Char → Option Nat
  | [] => none
  | cs => digitsFrom 0 cs

/-- The value of a text that is a decimal integer. -/
def integer? (s : String) : Option Int :=
  match s.toList with
  | '-' :: cs => (digits? cs).map fun n => -(n : Int)
  | '+' :: cs => (digits? cs).map fun n => (n : Int)
  | cs => (digits? cs).map fun n => (n : Int)

/-- The value of a text that is a decimal integer of 64 bits, between `-2^63` and `2^63 - 1`. -/
def int64? (s : String) : Option Int64 :=
  (integer? s).bind fun n =>
    if Int64.minValue.toInt ≤ n ∧ n ≤ Int64.maxValue.toInt then some (Int64.ofInt n) else none

/-- A 64-bit integer in decimal digits, with a sign only if it is negative. -/
def ofInt64 (n : Int64) : String :=
  toString n.toInt

end DeltaForest.Text
