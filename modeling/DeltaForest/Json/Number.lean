import DeltaForest.Data
import DeltaForest.Text.Decimal

/-!
# Numbers of JSON

A number is a whole part, then an optional fraction behind a point and an optional exponent behind
`e` or `E`, all in decimal digits and with an optional minus sign in front.

A whole number that fits 64 bits is kept. Of any other one it only matters whether it can be read,
which is decided by arithmetic of limited precision: as many digits are kept as fit 64 bits, what
is kept is multiplied by a power of ten, both rounded to double precision, and the number can be
read unless the product is infinite. So the largest numbers that can be read are not the same in
all their spellings (`Magnitude.isInfinite`).
-/

namespace DeltaForest.Json

/-- Whether a character can stand in a number. -/
def isNumberChar (c : Char) : Bool :=
  c.isDigit || c == '-' || c == '+' || c == '.' || c == 'e' || c == 'E'

/-- Whether digits, written without superfluous zeros in front, are the whole part of a number. -/
def isWhole : List Char → Bool
  | ['0'] => true
  | '0' :: _ => false
  | [] => false
  | cs => cs.all Char.isDigit

/-- Digits with an optional sign in front. -/
def exponent? : List Char → Option Int
  | '-' :: cs => (Text.digits? cs).map fun n => -(n : Int)
  | '+' :: cs => (Text.digits? cs).map fun n => (n : Int)
  | cs => (Text.digits? cs).map fun n => (n : Int)

/-! ## Magnitudes -/

/-- What is kept of the size of a number: `digits * 10^exponent`. -/
structure Magnitude where
  digits : Nat
  exponent : Int
  deriving DecidableEq, Repr

/-- Appends digits to those that are kept, up to the first one that does not fit 64 bits, and
    returns with them the digits that are not kept. -/
def keep (kept : Nat) : List Char → Nat × List Char
  | [] => (kept, [])
  | c :: rest =>
    let longer := 10 * kept + (c.toNat - '0'.toNat)
    if longer < UInt64.size then keep longer rest else (kept, c :: rest)

/-- The double-precision number nearest to a whole number, disregarding its bounds: the multiple of
    a power of two that has 53 binary digits in front. Of two that are equally near it is the one
    with an even front. -/
def toDouble (n : Nat) : Nat :=
  let unit := 1 <<< (n.log2 - 52)
  let below := n / unit
  match compare (2 * (n % unit)) unit with
  | .lt => below * unit
  | .eq => (below + below % 2) * unit
  | .gt => (below + 1) * unit

namespace Magnitude

/-- The magnitude of a number with a whole part, a fraction and an exponent. Digits of the whole
    part that are not kept count for the exponent; digits of the fraction that are kept do. Both
    parts are tried, so a digit of the fraction may be kept where one of the whole part was not. -/
def ofDigits (whole fraction : List Char) (exponent : Int) : Magnitude :=
  let (front, tooLong) := keep 0 whole
  let (kept, tooFine) := keep front fraction
  ⟨kept, exponent + tooLong.length - (fraction.length - tooFine.length : Nat)⟩

/-- Whether a magnitude is infinite in double precision: digits and power of ten are rounded first,
    and their product is infinite from half a step above the largest number on. No power of ten
    beyond `10^308` is finite. -/
def isInfinite (m : Magnitude) : Bool :=
  m.digits ≠ 0 && 0 < m.exponent &&
    (308 < m.exponent ||
      1 <<< 1024 - 1 <<< 970 ≤ toDouble m.digits * toDouble (Nat.pow 10 m.exponent.toNat))

/-- A number of a magnitude that is no 64-bit integer. -/
def toData (m : Magnitude) : Data :=
  if m.isInfinite then .unreadable else .real

end Magnitude

/-! ## Reading -/

/-- A whole number, which is `real` if it does not fit 64 bits. Minus zero is `real` too, since no
    integer is written that way. -/
def wholeNumber (isNegative : Bool) (whole : List Char) : Data :=
  match keep 0 whole with
  | (n, []) =>
    if !isNegative then .nat n
    else if 0 < n ∧ n ≤ 1 <<< 63 then .negative (n - 1)
    else .real
  | _ => (Magnitude.ofDigits whole [] 0).toData

/-- A number without its sign. -/
def unsigned? (isNegative : Bool) (cs : List Char) : Option Data :=
  let (whole, behindWhole) := cs.span Char.isDigit
  if !isWhole whole then none
  else
    match behindWhole with
    | [] => some (wholeNumber isNegative whole)
    | '.' :: behindPoint =>
      let (fraction, behindFraction) := behindPoint.span Char.isDigit
      -- A point without digits behind it is no fraction.
      if fraction.isEmpty then none
      else
        match behindFraction with
        | [] => some (Magnitude.ofDigits whole fraction 0).toData
        | c :: cs => scaled? whole fraction c cs
    | c :: cs => scaled? whole [] c cs
where
  /-- A number whose digits are followed by a character and an exponent. -/
  scaled? (whole fraction : List Char) (c : Char) (cs : List Char) : Option Data :=
    if c = 'e' ∨ c = 'E' then
      (exponent? cs).map fun exponent => (Magnitude.ofDigits whole fraction exponent).toData
    else none

/-- The number that a lexeme of number characters stands for. -/
def number? : List Char → Option Data
  | '-' :: cs => unsigned? true cs
  | cs => unsigned? false cs

end DeltaForest.Json
