import DeltaForest.Examples.LibraryAndShop
import DeltaForest.Proofs.Spelling
import Mathlib.Data.Nat.Digits.Defs

/-!
# Numerals

What the texts are that are read as integers, said without reading them: a sign or none, and then
one or more ASCII digits, of which each counts ten times as much as the one behind it
(`Text.Numeral`). Zeros in front are digits like others. A text is read as an integer of 64 bits if
it is a numeral for one that lies within the bounds, however many digits it has, and it is refused
otherwise (`Text.int64?_eq_some_iff`).

Values and their texts fit together in this way: what is written for a value of a type is read as
the value, and whatever is read as a value of a type is one (`Value.fits`).
-/

namespace DeltaForest

namespace Text

/-- What may stand in front of the digits of an integer. -/
inductive Sign
  | none
  | plus
  | minus
  deriving DecidableEq, Repr

namespace Sign

/-- How a sign is written. -/
def chars : Sign → List Char
  | none => []
  | plus => ['+']
  | minus => ['-']

/-- What a sign makes of the number behind it. -/
def apply : Sign → Nat → Int
  | minus, n => -n
  | _, n => n

end Sign

/-- A text is a sign, or none, and one or more ASCII digits, and these stand for an integer. -/
def Numeral (s : String) (z : Int) : Prop :=
  ∃ (sign : Sign) (digits : List Nat), digits ≠ [] ∧ (∀ d ∈ digits, d < 10) ∧
    s.toList = sign.chars ++ digits.map Nat.digitChar ∧
      z = sign.apply (Nat.ofDigits 10 digits.reverse)

/-! ## Digits -/

section Digits

variable {cs : List Char} {n value : Nat}

theorem digit?_eq_some {c : Char} {d : Nat} : digit? c = some d ↔ d < 10 ∧ Nat.digitChar d = c := by
  refine ⟨digitChar_of_digit?, ?_⟩
  rintro ⟨hd, rfl⟩
  rw [digit?_of_isDigit (by simpa using hd), Nat.toNat_digitChar_of_lt_ten hd]
  exact congrArg some (Nat.add_sub_cancel_left 48 d)

/-- What is read behind a number counts with it: the number has moved up by as many places as
    there are digits. -/
theorem digitsFrom_eq_some : digitsFrom value cs = some n ↔ ∃ digits : List Nat,
    (∀ d ∈ digits, d < 10) ∧ cs = digits.map Nat.digitChar ∧
      n = Nat.ofDigits 10 digits.reverse + 10 ^ digits.length * value := by
  induction cs generalizing value with
  | nil =>
    rw [digitsFrom, Option.some.injEq]
    constructor
    · rintro rfl
      exact ⟨[], List.forall_mem_nil _, rfl, by simp⟩
    · rintro ⟨digits, -, hcs, rfl⟩
      obtain rfl := List.map_eq_nil_iff.1 hcs.symm
      simp
  | cons c cs ih =>
    -- The first digit is the one that counts most.
    have hvalue (d : Nat) (digits : List Nat) :
        Nat.ofDigits 10 digits.reverse + 10 ^ digits.length * (10 * value + d) =
          Nat.ofDigits 10 (d :: digits).reverse + 10 ^ (d :: digits).length * value := by
      rw [List.reverse_cons, Nat.ofDigits_append, Nat.ofDigits_singleton, List.length_reverse,
        List.length_cons, Nat.pow_succ]
      ring
    rw [digitsFrom, Option.bind_eq_some_iff]
    constructor
    · rintro ⟨d, hd, hrest⟩
      obtain ⟨hlt, rfl⟩ := digit?_eq_some.1 hd
      obtain ⟨digits, hdigits, rfl, rfl⟩ := ih.1 hrest
      exact ⟨d :: digits, List.forall_mem_cons.2 ⟨hlt, hdigits⟩, rfl, hvalue d digits⟩
    · rintro ⟨_ | ⟨d, digits⟩, hdigits, hcs, rfl⟩
      · cases hcs
      · obtain ⟨rfl, rfl⟩ := List.cons.inj hcs
        obtain ⟨hlt, hdigits⟩ := List.forall_mem_cons.1 hdigits
        exact ⟨d, digit?_eq_some.2 ⟨hlt, rfl⟩,
          ih.2 ⟨digits, hdigits, rfl, (hvalue d digits).symm⟩⟩

theorem digits?_eq_some : digits? cs = some n ↔ ∃ digits : List Nat, digits ≠ [] ∧
    (∀ d ∈ digits, d < 10) ∧ cs = digits.map Nat.digitChar ∧
      n = Nat.ofDigits 10 digits.reverse := by
  cases cs with
  | nil =>
    refine iff_of_false nofun ?_
    rintro ⟨digits, hne, -, hcs, -⟩
    exact hne (List.map_eq_nil_iff.1 hcs.symm)
  | cons c cs =>
    rw [digits?.eq_2 (c :: cs) (List.cons_ne_nil c cs), digitsFrom_eq_some]
    simp only [Nat.mul_zero, Nat.add_zero]
    refine exists_congr fun digits => (and_iff_right_of_imp ?_).symm
    -- No digits would be no characters.
    rintro ⟨-, hcs, -⟩ rfl
    cases hcs

end Digits

/-! ## Integers -/

section Integers

variable {s : String} {z : Int}

/-- What a sign makes of digits. -/
theorem map_apply_digits? {sign : Sign} {cs : List Char} :
    (digits? cs).map sign.apply = some z ↔ ∃ digits : List Nat, digits ≠ [] ∧
      (∀ d ∈ digits, d < 10) ∧ cs = digits.map Nat.digitChar ∧
        z = sign.apply (Nat.ofDigits 10 digits.reverse) := by
  rw [Option.map_eq_some_iff]
  constructor
  · rintro ⟨n, hn, rfl⟩
    obtain ⟨digits, hne, hdigits, hcs, rfl⟩ := digits?_eq_some.1 hn
    exact ⟨digits, hne, hdigits, hcs, rfl⟩
  · rintro ⟨digits, hne, hdigits, hcs, rfl⟩
    exact ⟨_, digits?_eq_some.2 ⟨digits, hne, hdigits, hcs, rfl⟩, rfl⟩

/-- An integer is read by its sign. -/
theorem integer?_eq (s : String) : integer? s =
    match s.toList with
    | '-' :: cs => (digits? cs).map Sign.minus.apply
    | '+' :: cs => (digits? cs).map Sign.plus.apply
    | cs => (digits? cs).map Sign.none.apply := by
  have hcast (f : Int → Int) (n? : Option Nat) :
      (do let n ← n?; pure (n : Int)).map f = n?.map fun n : Nat => f n := by
    cases n? <;> rfl
  simp only [integer?, hcast]
  rfl

theorem numeral_of_integer? (h : integer? s = some z) : Numeral s z := by
  have hsigned (sign : Sign) {cs : List Char} (hs : s.toList = sign.chars ++ cs)
      (hread : (digits? cs).map sign.apply = some z) : Numeral s z := by
    obtain ⟨digits, hne, hdigits, rfl, hz⟩ := map_apply_digits?.1 hread
    exact ⟨sign, digits, hne, hdigits, hs, hz⟩
  rw [integer?_eq] at h
  split at h
  · next hs => exact hsigned .minus hs h
  · next hs => exact hsigned .plus hs h
  · exact hsigned .none rfl h

theorem integer?_of_numeral (h : Numeral s z) : integer? s = some z := by
  obtain ⟨sign, digits, hne, hdigits, hs, hz⟩ := h
  have hread := map_apply_digits?.2 ⟨digits, hne, hdigits, rfl, hz⟩
  rw [integer?_eq, hs]
  cases sign with
  | plus | minus => exact hread
  | none =>
    -- No digit is taken for a sign.
    have hdigit : ∀ c ∈ digits.map Nat.digitChar, c.isDigit = true := by
      simpa using hdigits
    rw [Sign.chars, List.nil_append]
    split
    · simp_all
    · simp_all
    · exact hread

/-- What is read as an integer are the numerals. -/
theorem integer?_eq_some_iff : integer? s = some z ↔ Numeral s z :=
  ⟨numeral_of_integer?, integer?_of_numeral⟩

/-- Of these, the ones for an integer of 64 bits are read as one. -/
theorem int64?_eq_some_iff {n : Int64} : int64? s = some n ↔ Numeral s n.toInt := by
  rw [int64?, Option.bind_eq_some_iff]
  constructor
  · rintro ⟨z, hz, hn⟩
    split at hn
    · next hbounds =>
      obtain rfl := Option.some.inj hn
      rw [Int64.toInt_ofInt_of_le hbounds.1 (Int.lt_of_le_sub_one hbounds.2)]
      exact integer?_eq_some_iff.1 hz
    · cases hn
  · intro h
    refine ⟨n.toInt, integer?_eq_some_iff.2 h, ?_⟩
    rw [if_pos ⟨Int64.minValue_le_toInt n, Int64.toInt_le n⟩, Int64.ofInt_toInt]

end Integers

end Text

/-! ## Values -/

namespace Value

open Text

theorem read_eq_ok {feature : Pointer} {type : DataType} {s : String} {v : Value} :
    read feature type s = .ok v ↔ ofText? type s = some v := by
  rw [read]
  split <;> simp_all

/-- Texts are read as what is written for values: a value of a type comes back from its text, and
    nothing is read that is no value of the type. An integer is read of a text exactly if the text
    is a numeral for it and it lies within 64 bits. -/
theorem fits (feature : Pointer) :
    (∀ type v, v.conforms type = true → read feature type v.text = .ok v) ∧
      (∀ type s v, read feature type s = .ok v → v.conforms type = true) ∧
      ∀ s v, read feature .integer s = .ok v ↔
        ∃ z, Numeral s z ∧ -2 ^ 63 ≤ z ∧ z ≤ 2 ^ 63 - 1 ∧ ∃ n, v = .integer n ∧ n.toInt = z := by
  refine ⟨fun type v => read_text feature, fun type s v h => ?_, fun s v => ?_⟩
  · exact conforms_of_ofText? (read_eq_ok.1 h)
  · rw [read_eq_ok, ofText?, Option.map_eq_some_iff]
    constructor
    · rintro ⟨n, hn, rfl⟩
      exact ⟨n.toInt, int64?_eq_some_iff.1 hn, Int64.minValue_le_toInt n, Int64.toInt_le n, n, rfl,
        rfl⟩
    · rintro ⟨_, hz, -, -, n, rfl, rfl⟩
      exact ⟨n, int64?_eq_some_iff.2 hz, rfl⟩

end Value

/-! ## The lowest integer -/

namespace Examples

open Text

/-- The lowest integer of 64 bits, which has no counterpart above zero, comes back from what is
    written for it, and is also read with zeros in front. -/
theorem fits_lowest : (Value.integer Int64.minValue).conforms .integer = true ∧
    Numeral "-009223372036854775808" (-2 ^ 63) ∧
      Value.read (library.pointer "Book-pages") .integer (Value.integer Int64.minValue).text =
        .ok (.integer Int64.minValue) ∧
      Value.read (library.pointer "Book-pages") .integer "-009223372036854775808" =
        .ok (.integer Int64.minValue) := by
  obtain ⟨hback, -, hread⟩ := Value.fits (library.pointer "Book-pages")
  have hnumeral : Numeral "-009223372036854775808" (-2 ^ 63) :=
    ⟨.minus, [0, 0, 9, 2, 2, 3, 3, 7, 2, 0, 3, 6, 8, 5, 4, 7, 7, 5, 8, 0, 8], by decide, by decide,
      by decide, by decide⟩
  exact ⟨rfl, hnumeral, hback .integer _ rfl,
    (hread _ _).2 ⟨_, hnumeral, by decide, by decide, _, rfl, by decide⟩⟩

end Examples

end DeltaForest
