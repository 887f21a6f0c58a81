import DeltaForest.Value

/-!
# Values and their texts

The text of a value, read as one of its type, is the value again (`Value.ofText?_text`). For
integers this comes down to digits: reading them from left to right undoes writing them.
-/

namespace DeltaForest

namespace Text

/-! ## Digits -/

theorem digit?_of_isDigit {c : Char} (h : c.isDigit = true) :
    digit? c = some (c.toNat - '0'.toNat) := by
  have hbounds : '0' ≤ c ∧ c ≤ '9' := by
    rw [Char.isDigit, Bool.and_eq_true, decide_eq_true_eq, decide_eq_true_eq] at h
    exact h
  rw [digit?, if_pos hbounds]

theorem digitsFrom_of_isDigit {cs : List Char} (h : ∀ c ∈ cs, c.isDigit = true) (value : Nat) :
    digitsFrom value cs = some (Nat.ofDigitChars 10 cs value) := by
  induction cs generalizing value with
  | nil => rw [digitsFrom, Nat.ofDigitChars_nil]
  | cons c cs ih =>
    obtain ⟨hc, hcs⟩ := List.forall_mem_cons.1 h
    rw [digitsFrom, digit?_of_isDigit hc, Option.bind_some, ih hcs, Nat.ofDigitChars_cons]

theorem isDigit_toDigits {n : Nat} : ∀ c ∈ Nat.toDigits 10 n, c.isDigit = true :=
  fun _ hc => Nat.isDigit_of_mem_toDigits (by omega) (by omega) hc

theorem digits?_toDigits (n : Nat) : digits? (Nat.toDigits 10 n) = some n := by
  have hread := digitsFrom_of_isDigit (isDigit_toDigits (n := n)) 0
  rw [Nat.ofDigitChars_ten_toDigits] at hread
  cases hdigits : Nat.toDigits 10 n with
  | nil => exact absurd hdigits Nat.toDigits_ne_nil
  | cons c cs => rwa [hdigits] at hread

/-- Different numbers are written differently. -/
theorem toString_injective {n n' : UInt64} (h : toString n = toString n') : n = n' := by
  have hrepr : n.toNat.repr = n'.toNat.repr := h
  have hdigits : Nat.toDigits 10 n.toNat = Nat.toDigits 10 n'.toNat := by
    rw [← Nat.toList_repr, hrepr, Nat.toList_repr]
  have hread := digits?_toDigits n.toNat
  rw [hdigits, digits?_toDigits] at hread
  exact UInt64.toNat_inj.1 (Option.some.inj hread).symm

/-! ## Integers -/

/-- Digits without a sign in front of them are read as they are. -/
theorem integer?_of_isDigit {s : String} {cs : List Char} (hs : s.toList = cs)
    (h : ∀ c ∈ cs, c.isDigit = true) :
    integer? s = (digits? cs).map fun n => (n : Int) := by
  rw [integer?, hs]
  split
  · simp [Char.isDigit] at h
  · simp [Char.isDigit] at h
  · rfl

theorem toList_repr_ofNat (n : Nat) : (Int.repr (.ofNat n)).toList = Nat.toDigits 10 n :=
  Nat.toList_repr

theorem toList_repr_negSucc (n : Nat) :
    (Int.repr (.negSucc n)).toList = '-' :: Nat.toDigits 10 (n + 1) := by
  rw [Int.repr, String.toList_append, Nat.toList_repr]
  rfl

theorem integer?_repr (n : Int) : integer? n.repr = some n := by
  cases n with
  | ofNat n =>
    rw [integer?_of_isDigit (toList_repr_ofNat n) isDigit_toDigits, digits?_toDigits]
    rfl
  | negSucc n =>
    rw [integer?, toList_repr_negSucc]
    simp only [digits?_toDigits]
    rfl

/-- An integer of 64 bits is read from its digits. -/
theorem int64?_ofInt64 (n : Int64) : int64? (ofInt64 n) = some n := by
  have hlow := Int64.minValue_le_toInt n
  have hhigh := Int64.toInt_le n
  rw [int64?, ofInt64, Int.toString_eq_repr, integer?_repr, Option.bind_some,
    if_pos ⟨hlow, hhigh⟩, Int64.ofInt_toInt]

end Text

/-! ## Values -/

namespace Value

theorem ofText?_text {v : Value} {type : DataType} (h : v.conforms type = true) :
    ofText? type v.text = some v := by
  cases v <;> cases type <;> simp only [conforms, Bool.false_eq_true] at h
  case boolean.boolean b => cases b <;> rfl
  case integer.integer n => rw [ofText?, text, Text.int64?_ofInt64, Option.map_some]
  case string.string s => rfl
  case literal.enumeration s literals => rw [ofText?, text, if_pos (of_decide_eq_true h)]

/-- Whatever is read as a value of a type is one. -/
theorem conforms_of_ofText? {type : DataType} {s : String} {v : Value}
    (h : ofText? type s = some v) : v.conforms type = true := by
  cases type with
  | boolean =>
    rw [ofText?] at h
    split at h
    · cases h
      rfl
    · split at h <;> cases h
      rfl
  | integer =>
    obtain ⟨n, -, rfl⟩ := Option.map_eq_some_iff.1 h
    rfl
  | string =>
    cases h
    rfl
  | enumeration literals =>
    rw [ofText?] at h
    split at h
    · next hs =>
      cases h
      exact decide_eq_true hs
    · cases h

theorem read_text {v : Value} {type : DataType} (feature : Pointer)
    (h : v.conforms type = true) : read feature type v.text = .ok v := by
  rw [read, ofText?_text h]

end Value

end DeltaForest
