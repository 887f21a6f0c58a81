import DeltaForest.Cbor.Head
import Mathlib.Algebra.Group.Nat.Defs
import Mathlib.Tactic.SplitIfs

/-!
# Heads as they are written

A head is read from what is written for it, whatever follows (`Head.Fits.head?_toBytes`), as long as
its argument is a number of 64 bits at most. And nothing shorter is read as the same head
(`length_toBytes_le`). So what is written for a head is the shortest way to spell it
(`Head.Spelt`): one byte for an argument below 24, and 1, 2, 4 or 8 bytes more for others, as few as
there can be.
-/

namespace DeltaForest.Cbor

variable {width n major minor : Nat} {bytes rest more : List UInt8} {x : Head}

/-! ## Numbers of several bytes -/

@[simp] theorem length_bigEndian : (bigEndian width n).length = width := by
  induction width with
  | zero => rfl
  | succ width ih => rw [bigEndian, List.length_cons, ih]

theorem foldl_bigEndian (width n k : Nat) : (bigEndian width n).foldl
    (fun n b => 256 * n + b.toNat) k = 256 ^ width * k + n % 256 ^ width := by
  induction width generalizing k with
  | zero => simp [bigEndian, Nat.mod_one]
  | succ width ih =>
    have hbyte : (UInt8.ofNat (n >>> (8 * width))).toNat = n / 256 ^ width % 256 := by
      rw [UInt8.toNat_ofNat', Nat.shiftRight_eq_div_pow, Nat.pow_mul]
    rw [bigEndian, List.foldl_cons, ih, hbyte, Nat.pow_succ, Nat.mod_mul, Nat.mul_add,
      Nat.mul_assoc (256 ^ width) 256 k]
    omega

theorem ofBigEndian_bigEndian (h : n < 256 ^ width) : ofBigEndian (bigEndian width n) = n := by
  rw [ofBigEndian, foldl_bigEndian, Nat.mod_eq_of_lt h, Nat.mul_zero, Nat.zero_add]

/-- Bytes stand for a number below the next power. -/
theorem foldl_lt (bytes : List UInt8) (k : Nat) :
    bytes.foldl (fun n b => 256 * n + b.toNat) k < 256 ^ bytes.length * (k + 1) := by
  induction bytes generalizing k with
  | nil => simp
  | cons b bytes ih =>
    have hb := b.toNat_lt
    have hle : 256 * k + b.toNat + 1 ≤ 256 * (k + 1) := by omega
    rw [List.foldl_cons, List.length_cons, Nat.pow_succ, Nat.mul_assoc]
    exact Nat.lt_of_lt_of_le (ih _) (Nat.mul_le_mul_left _ hle)

theorem ofBigEndian_lt (bytes : List UInt8) : ofBigEndian bytes < 256 ^ bytes.length := by
  have hlt := foldl_lt bytes 0
  rwa [Nat.zero_add, Nat.mul_one] at hlt

theorem number?_bigEndian (h : n < 256 ^ width) :
    number? width (bigEndian width n) = some (n, []) := by
  have htake : (bigEndian width n).take width = bigEndian width n :=
    List.take_of_length_le (by simp)
  rw [number?, if_pos (by simp), htake, ofBigEndian_bigEndian h]
  simp

/-- A number of some bytes is below a power, and its bytes are not left. -/
theorem number?_eq_some (h : number? width bytes = some (n, rest)) :
    n < 256 ^ width ∧ rest.length + width = bytes.length := by
  rw [number?] at h
  split at h
  · next hle =>
    cases h
    have hlt := ofBigEndian_lt (bytes.take width)
    rw [List.length_take_of_le hle] at hlt
    exact ⟨hlt, by rw [List.length_drop]; omega⟩
  · cases h

/-! ## What follows is left -/

theorem number?_append (h : number? width bytes = some (n, rest)) :
    number? width (bytes ++ more) = some (n, rest ++ more) := by
  rw [number?] at h ⊢
  split at h
  · next hle =>
    cases h
    rw [if_pos (by rw [List.length_append]; omega), List.take_append_of_le_length hle,
      List.drop_append_of_le_length hle]
  · cases h

theorem argument?_append {a : Option Nat} (h : argument? minor bytes = some (a, rest)) :
    argument? minor (bytes ++ more) = some (a, rest ++ more) := by
  rw [argument?] at h ⊢
  split_ifs at h ⊢
  · cases h
    rfl
  · obtain ⟨⟨n, rest'⟩, hn, he⟩ := Option.map_eq_some_iff.1 h
    cases he
    rw [number?_append hn]
    rfl
  · cases h
    rfl

/-- What follows a head does not matter to it. -/
theorem head?_append (h : head? bytes = some (x, rest)) :
    head? (bytes ++ more) = some (x, rest ++ more) := by
  rcases bytes with _ | ⟨b, bytes⟩
  · cases h
  rw [head?] at h
  rw [List.cons_append, head?]
  split at h
  · cases h
  · next a rest' ha =>
    obtain ⟨x', hx, he⟩ := Option.map_eq_some_iff.1 h
    cases he
    rw [argument?_append ha]
    simp only [hx, Option.map_some]

/-! ## Arguments -/

/-- The first byte of a head is read as it is put together. -/
theorem toNat_first (hmajor : major < 8) (hminor : minor < 32) :
    (UInt8.ofNat (32 * major + minor)).toNat / 32 = major ∧
      (UInt8.ofNat (32 * major + minor)).toNat % 32 = minor := by
  rw [UInt8.toNat_ofNat', Nat.mod_eq_of_lt (by omega)]
  omega

/-- An argument is read from what is written for it. -/
theorem exists_withArgument (hmajor : major < 8) (hn : n < UInt64.size) :
    ∃ b tail, withArgument major n = b :: tail ∧ b.toNat / 32 = major ∧
      argument? (b.toNat % 32) tail = some (some n, []) ∧
      (n < UInt8.size → b.toNat % 32 ≤ 24) := by
  have hfirst {minor : Nat} {tail : List UInt8} (hminor : minor < 32)
      (harg : argument? minor tail = some (some n, [])) (hsmall : n < UInt8.size → minor ≤ 24) :
      ∃ b tail', UInt8.ofNat (32 * major + minor) :: tail = b :: tail' ∧ b.toNat / 32 = major ∧
        argument? (b.toNat % 32) tail' = some (some n, []) ∧
        (n < UInt8.size → b.toNat % 32 ≤ 24) := by
    obtain ⟨hdiv, hmod⟩ := toNat_first hmajor hminor
    exact ⟨_, _, rfl, hdiv, by rwa [hmod], by rwa [hmod]⟩
  -- A number that does not fit in the first byte follows in one, two, four or eight bytes.
  have hlong {minor : Nat} (hge : 24 ≤ minor) (hlt : minor < 28)
      (hn : n < 256 ^ (1 <<< (minor - 24))) :
      argument? minor (bigEndian (1 <<< (minor - 24)) n) = some (some n, []) := by
    rw [argument?, if_neg (by omega), if_pos hlt, number?_bigEndian hn]
    rfl
  rw [withArgument]
  split_ifs with h0 h1 h2 h3
  · exact hfirst (by omega) (if_pos h0) fun _ => by omega
  · exact hfirst (by omega) (hlong (by omega) (by omega) h1) fun _ => by omega
  · exact hfirst (by omega) (hlong (by omega) (by omega) h2) fun h => absurd h h1
  · exact hfirst (by omega) (hlong (by omega) (by omega) h3) fun h => absurd h h1
  · exact hfirst (by omega) (hlong (by omega) (by omega) hn) fun h => absurd h h1

/-- What is written for an argument is no longer than what it has been read from. -/
theorem length_withLength_le {a : Option Nat} (h : argument? minor bytes = some (a, rest)) :
    (withLength major a).length + rest.length ≤ bytes.length + 1 := by
  rw [argument?] at h
  -- The argument is in the first byte, in the bytes behind it, or left out.
  split_ifs at h with h0 h1 h2
  · cases h
    rw [withLength, withArgument, if_pos h0, List.length_singleton]
    omega
  · obtain ⟨⟨n, rest'⟩, hn, he⟩ := Option.map_eq_some_iff.1 h
    cases he
    obtain ⟨hlt, hlength⟩ := number?_eq_some hn
    have hwidth : minor = 24 ∨ minor = 25 ∨ minor = 26 ∨ minor = 27 := by omega
    rw [withLength, withArgument]
    rcases hwidth with rfl | rfl | rfl | rfl <;> simp at hlt hlength <;> split_ifs <;> simp <;>
      omega
  · cases h
    rw [withLength, List.length_singleton]
    omega

/-! ## Heads -/

/-- A head whose argument takes 64 bits at most. -/
def Head.Fits : Head → Prop
  | .nat n | .negative n | .tag n => n < UInt64.size
  | .bytes length | .text length | .list length | .map length => length.getD 0 < UInt64.size
  | .simple n => n < UInt8.size
  | .real | .stop => True

theorem head?_withArgument (hmajor : major < 8) (hn : n < UInt64.size)
    (hof : ∀ minor, (n < UInt8.size → minor ≤ 24) → Head.of? major minor (some n) = some x) :
    head? (withArgument major n) = some (x, []) := by
  obtain ⟨b, tail, heq, hdiv, harg, hsmall⟩ := exists_withArgument hmajor hn
  rw [heq, head?, harg]
  simp only [hdiv, hof _ hsmall, Option.map_some]

theorem head?_withLength {length : Option Nat} (hmajor : major < 8)
    (hn : length.getD 0 < UInt64.size) (hof : ∀ minor, Head.of? major minor length = some x) :
    head? (withLength major length) = some (x, []) := by
  rcases length with _ | n
  · obtain ⟨hdiv, hmod⟩ := toNat_first hmajor (by decide : 31 < 32)
    have harg : argument? 31 [] = some (none, []) := rfl
    rw [withLength, head?, hmod, hdiv, harg]
    simp only [hof, Option.map_some]
  · exact head?_withArgument hmajor hn fun minor _ => hof minor

/-- A head takes a byte at least. -/
theorem length_toBytes_pos (x : Head) : 0 < x.toBytes.length := by
  have hargument {major n : Nat} : 0 < (withArgument major n).length := by
    rw [withArgument]
    split_ifs <;> exact Nat.succ_pos _
  have hlength {major : Nat} {length : Option Nat} : 0 < (withLength major length).length := by
    cases length with
    | none => exact Nat.succ_pos _
    | some n => exact hargument
  cases x with
  | nat | negative | tag | simple => exact hargument
  | bytes | text | list | map => exact hlength
  | real | stop => exact Nat.succ_pos _

/-- A head is read from what is written for it. -/
theorem Head.Fits.head?_toBytes (h : x.Fits) : head? x.toBytes = some (x, []) := by
  cases x with
  | nat n | negative n | tag n => exact head?_withArgument (by decide) h fun _ _ => rfl
  | bytes length | text length | list length | map length =>
    exact head?_withLength (by decide) h fun _ => by cases length <;> rfl
  | simple n =>
    have hn : n < UInt8.size := h
    refine head?_withArgument (by decide) (Nat.lt_trans hn (by decide)) fun minor hminor => ?_
    rw [Head.of?, if_pos (hminor hn)]
  | real | stop => rfl

/-- A head is written by its kind and its argument, but for floating-point numbers, whose argument
    takes several bytes. -/
theorem toBytes_of? {a : Option Nat} (h : Head.of? major minor a = some x) :
    x.toBytes = withLength major a ∨ x = .real ∧ 24 < minor ∧ ∃ n, a = some n := by
  unfold Head.of? at h
  split at h <;> cases h
  case h_9 n =>
    split_ifs with hminor
    · exact .inl rfl
    · exact .inr ⟨rfl, by omega, n, rfl⟩
  all_goals exact .inl rfl

/-- What is written for a head is no longer than what it has been read from. -/
theorem length_toBytes_le (h : head? bytes = some (x, rest)) :
    x.toBytes.length + rest.length ≤ bytes.length := by
  rcases bytes with _ | ⟨b, bytes⟩
  · cases h
  rw [head?] at h
  split at h
  · cases h
  next a rest' ha =>
  obtain ⟨x', hx, he⟩ := Option.map_eq_some_iff.1 h
  cases he
  rw [List.length_cons]
  rcases toBytes_of? hx with hbytes | ⟨rfl, hminor, n, rfl⟩
  · rw [hbytes]
    exact length_withLength_le ha
  · rw [argument?, if_neg (by omega)] at ha
    split_ifs at ha
    · obtain ⟨⟨n', rest'⟩, hn, he⟩ := Option.map_eq_some_iff.1 ha
      cases he
      obtain ⟨-, hlength⟩ := number?_eq_some hn
      have hwidth : 2 ≤ 1 <<< (b.toNat % 32 - 24) := by
        rw [Nat.one_shiftLeft]
        exact Nat.pow_le_pow_right (by decide : 0 < 2) (by omega : 1 ≤ _)
      show 3 + rest.length ≤ bytes.length + 1
      omega
    · cases ha

/-- The shortest bytes that are read as a head. -/
def Head.Spelt (x : Head) (bytes : List UInt8) : Prop :=
  head? bytes = some (x, []) ∧ ∀ others, head? others = some (x, []) → bytes.length ≤ others.length

/-- A head is written as short as it can be. -/
theorem Head.Fits.spelt (h : x.Fits) : x.Spelt x.toBytes := by
  refine ⟨h.head?_toBytes, fun others hothers => ?_⟩
  exact length_toBytes_le hothers

end DeltaForest.Cbor
