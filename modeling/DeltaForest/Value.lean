import DeltaForest.Fault
import DeltaForest.Text.Decimal

/-!
# Property values

A property has a truth value, a 64-bit integer, a text or a word of an enumeration. In messages
every value is a text, and the type of the property says how to read it.
-/

namespace DeltaForest

/-- The value of a property. -/
inductive Value
  | boolean (b : Bool)
  | integer (n : Int64)
  | string (s : String)
  /-- A word of an enumeration. -/
  | literal (s : String)
  deriving DecidableEq, Repr, Inhabited

namespace Value

/-- The text of a value. -/
def text : Value → String
  | boolean true => "true"
  | boolean false => "false"
  | integer n => Text.ofInt64 n
  | string s => s
  | literal s => s

/-- Whether a value is one of a type. -/
def conforms : Value → DataType → Bool
  | boolean _, .boolean => true
  | integer _, .integer => true
  | string _, .string => true
  | literal s, .enumeration literals => s ∈ literals
  | _, _ => false

/-- The value of a type with a given text. -/
def ofText? (type : DataType) (s : String) : Option Value :=
  match type with
  | .boolean =>
    if s = "true" then some (boolean true) else if s = "false" then some (boolean false) else none
  | .integer => (Text.int64? s).map integer
  | .string => some (string s)
  | .enumeration literals => if s ∈ literals then some (literal s) else none

/-- The value of a property with a given text. -/
def read (feature : Pointer) (type : DataType) (s : String) : Except Fault Value :=
  match ofText? type s with
  | some v => .ok v
  | none => .error (.invalidValue feature s (.textOf type))

end Value

end DeltaForest
