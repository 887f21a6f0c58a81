import DeltaForest.Proofs.Decimal

/-!
# Spellings of integers

An integer can be spelled in many ways, for a plus sign and zeros may stand in front of it. One of
its spellings is canonical (`Text.isCanonical`), and this is the one in which it is written
(`Text.ofInt64_eq_iff`).

Digits in front of which no zero stands are those of the number that they are read as, for each
digit that is read goes behind those of the number read so far (`Text.toDigits_of_digitsFrom`).
-/

namespace DeltaForest

namespace Text

/-- Whether an integer is spelled without a plus sign, without zeros that could be left out, and
    not as minus zero. -/
def isCanonical (s : String) : Bool :=
  match s.toList with
  | '+' :: _ => false
  | '-' :: '0' :: _ => false
  | '0' :: rest => rest.isEmpty
  | _ => true

/-! ## Digits -/

/-- A character that is read as a digit is the one in which the digit is written. -/
theorem digitChar_of_digit? {c : Char} {d : Nat} (h : digit? c = some d) :
    d < 10 ∧ Nat.digitChar d = c := by
  rw [digit?] at h
  split at h
  · next hbounds =>
    have hlow : 48 ≤ c.toNat := hbounds.1
    have hhigh : c.toNat ≤ 57 := hbounds.2
    obtain rfl : c.toNat - 48 = d := Option.some.inj h
    have hlt : c.toNat - 48 < 10 := by omega
    refine ⟨hlt, Char.toNat_inj.1 ?_⟩
    rw [Nat.toNat_digitChar_of_lt_ten hlt]
    omega
  · cases h

/-- What is read behind a number is written behind it. -/
theorem toDigits_of_digitsFrom {cs : List Char} {value n : Nat} (hvalue : 0 < value)
    (h : digitsFrom value cs = some n) : Nat.toDigits 10 n = Nat.toDigits 10 value ++ cs := by
  induction cs generalizing value with
  | nil =>
    obtain rfl := Option.some.inj h
    exact (List.append_nil _).symm
  | cons c cs ih =>
    obtain ⟨d, hd, hrest⟩ := Option.bind_eq_some_iff.1 h
    obtain ⟨hlt, rfl⟩ := digitChar_of_digit? hd
    rw [ih (by omega) hrest, ← Nat.toDigits_append_toDigits (by omega) hvalue hlt,
      Nat.toDigits_of_lt_base hlt, List.append_assoc]
    rfl

/-- Digits are written as they are read, unless there is a zero in front that could be left out. -/
theorem toDigits_of_digits? {cs : List Char} {n : Nat} (h : digits? cs = some n)
    (hzero : cs.head? = some '0' → cs = ['0']) : Nat.toDigits 10 n = cs := by
  cases cs with
  | nil => cases h
  | cons c cs =>
    obtain ⟨d, hd, hrest⟩ := Option.bind_eq_some_iff.1 h
    obtain ⟨hlt, rfl⟩ := digitChar_of_digit? hd
    rw [Nat.mul_zero, Nat.zero_add] at hrest
    rcases Nat.eq_zero_or_pos d with rfl | hpos
    · -- The zero stands alone.
      obtain rfl : cs = [] := (List.cons.inj (hzero rfl)).2
      obtain rfl := Option.some.inj hrest
      rfl
    · rw [toDigits_of_digitsFrom hpos hrest, Nat.toDigits_of_lt_base hlt]
      rfl

/-- Only zero is written with a zero in front. -/
theorem head?_toDigits {n : Nat} (hn : 0 < n) : (Nat.toDigits 10 n).head? ≠ some '0' := by
  induction n using Nat.strongRecOn with
  | ind n ih =>
    rw [Nat.toDigits_eq_if (by omega)]
    split
    · simpa using Nat.ne_of_gt hn
    · obtain ⟨c, hc⟩ := Option.ne_none_iff_exists'.1
        (mt List.head?_eq_none_iff.1 (Nat.toDigits_ne_nil (n := n / 10) (b := 10)))
      have hhead := ih (n / 10) (by omega) (by omega)
      rwa [List.head?_append, hc, Option.some_or, ← hc]

theorem toDigits_of_head? {n : Nat} (h : (Nat.toDigits 10 n).head? = some '0') :
    Nat.toDigits 10 n = ['0'] := by
  rcases Nat.eq_zero_or_pos n with rfl | hpos
  · rfl
  · exact absurd h (head?_toDigits hpos)

/-! ## Integers -/

/-- An integer that is spelled canonically is written as it is spelled. -/
theorem repr_of_integer? {s : String} {z : Int} (h : integer? s = some z)
    (hs : isCanonical s = true) : z.repr = s := by
  refine String.toList_inj.1 ?_
  rw [integer?] at h
  rw [isCanonical] at hs
  split at h
  · next cs hlist =>
    rw [hlist] at hs ⊢
    obtain ⟨_, hread, rfl⟩ := Option.map_eq_some_iff.1 h
    obtain ⟨n, hn, ⟨⟩⟩ := Option.bind_eq_some_iff.1 hread
    -- Behind a minus sign no zero leads, so the digits stand for a number above zero.
    have hhead : cs.head? ≠ some '0' := by
      cases cs with
      | nil => simp
      | cons c cs => rintro ⟨⟩; cases hs
    have hdigits := toDigits_of_digits? hn fun hzero => absurd hzero hhead
    cases n with
    | zero => exact absurd (hdigits ▸ rfl) hhead
    | succ n => exact (toList_repr_negSucc n).trans (congrArg _ hdigits)
  · next cs hlist =>
    rw [hlist] at hs
    cases hs
  · obtain ⟨_, hread, rfl⟩ := Option.map_eq_some_iff.1 h
    obtain ⟨n, hn, ⟨⟩⟩ := Option.bind_eq_some_iff.1 hread
    refine (Nat.toList_repr (n := n)).trans (toDigits_of_digits? hn fun hhead => ?_)
    obtain ⟨cs, hcs⟩ := List.head?_eq_some_iff.1 hhead
    rw [hcs] at hs ⊢
    rw [List.isEmpty_iff.1 hs]

/-- An integer is written canonically. -/
theorem isCanonical_repr (z : Int) : isCanonical z.repr = true := by
  cases z with
  | ofNat n =>
    have hdigit := isDigit_toDigits (n := n)
    have hzero := toDigits_of_head? (n := n)
    rw [isCanonical, toList_repr_ofNat]
    split <;> simp_all [Char.isDigit]
  | negSucc n =>
    have hzero := head?_toDigits (n := n + 1) (by omega)
    rw [isCanonical, toList_repr_negSucc]
    split <;> simp_all

/-- An integer of 64 bits is written as it is spelled if it is spelled canonically. -/
theorem ofInt64_eq_iff {s : String} {n : Int64} (h : int64? s = some n) :
    ofInt64 n = s ↔ isCanonical s = true := by
  constructor
  · rintro rfl
    exact isCanonical_repr _
  · intro hs
    obtain ⟨z, hz, hn⟩ := Option.bind_eq_some_iff.1 h
    split at hn
    · next hbounds =>
      obtain rfl := Option.some.inj hn
      rw [ofInt64, Int64.toInt_ofInt_of_le hbounds.1 (Int.lt_of_le_sub_one hbounds.2)]
      exact repr_of_integer? hz hs
    · cases hn

end Text

/-! ## Values -/

/-- A value is written as it is spelled, unless that is an integer that is not spelled
    canonically. -/
theorem Value.text_eq_iff {type : DataType} {s : String} {v : Value}
    (h : ofText? type s = some v) :
    v.text = s ↔ (type = .integer → Text.isCanonical s = true) := by
  -- Integers alone are spelled in more than one way.
  cases type with
  | boolean =>
    rw [ofText?] at h
    refine iff_of_true ?_ (by simp)
    split at h
    · next hs => cases h; exact hs.symm
    · split at h
      · next hs => cases h; exact hs.symm
      · cases h
  | integer =>
    obtain ⟨n, hn, rfl⟩ := Option.map_eq_some_iff.1 h
    exact (Text.ofInt64_eq_iff hn).trans (by simp)
  | string =>
    cases h
    exact iff_of_true rfl (by simp)
  | enumeration literals =>
    rw [ofText?] at h
    split at h
    · cases h
      exact iff_of_true rfl (by simp)
    · cases h

end DeltaForest
