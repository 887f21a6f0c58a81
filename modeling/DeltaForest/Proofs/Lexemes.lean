import DeltaForest.Json.Lexeme
import DeltaForest.Json.Printer
import DeltaForest.Proofs.Decimal
import Mathlib.Data.List.TakeDrop
import Mathlib.Data.List.TakeWhile

/-!
# Lexemes as they are printed

What the printer writes for a text, a number or a word is read as one lexeme, which stands for the
text, the number or the word again, and nothing of what follows is taken for more of it. Strings
bring their own end. A number or a word ends where no character of a number and no letter follows
(`Ends`): the printer never puts one there.
-/

namespace DeltaForest.Json

/-! ## Strings -/

/-- A control character is written with four hexadecimal digits that are read as its number. -/
theorem hex4_of_lt : ∀ n < 32,
    (hex4 n).toList = ['0', '0', (n / 16).digitChar, (n % 16).digitChar] ∧
    hex4? '0' '0' (n / 16).digitChar (n % 16).digitChar = some n := by
  decide +kernel

/-- A character is read from what is written for it. -/
theorem stringFrom_stringChar (done : List Char) (c : Char) (rest : List Char) :
    stringFrom (some done) ((stringChar c).toList ++ rest) =
      stringFrom (some (c :: done)) rest := by
  unfold stringChar
  split
  case h_8 =>
    split
    · -- A control character is spelled as a unit of four digits, and is no surrogate.
      next hlt =>
      obtain ⟨hdigits, hread⟩ := hex4_of_lt _ hlt
      have hhigh : isHigh c.toNat = false := by simp [isHigh]; omega
      have hlow : isLow c.toNat = false := by simp [isLow]; omega
      rw [String.toList_append, hdigits]
      show stringFrom (some done) ('\\' :: 'u' :: '0' :: '0' :: _ :: _ :: rest) = _
      rw [stringFrom, hread]
      simp [hhigh, hlow, Char.ofNat_toNat]
    · next hge =>
      rw [Char.toString_eq_singleton, String.toList_singleton, List.singleton_append, stringFrom,
        if_neg hge]
      all_goals simp_all
  all_goals simp [stringFrom, escaped?]

/-- What stands between the quotes for characters. -/
def stringBody (cs : List Char) : List Char := cs.flatMap fun c => (stringChar c).toList

/-- The characters of a string are read one by one up to the closing quote. -/
theorem stringFrom_stringBody (cs done rest : List Char) :
    stringFrom (some done) (stringBody cs ++ '"' :: rest) =
      some (some (String.ofList (done.reverse ++ cs)), rest) := by
  induction cs generalizing done with
  | nil => simp [stringBody, stringFrom]
  | cons c cs ih =>
    have hbody : stringBody (c :: cs) = (stringChar c).toList ++ stringBody cs := rfl
    rw [hbody, List.append_assoc, stringFrom_stringChar, ih, List.reverse_cons, List.append_assoc]
    rfl

/-- A printed string is its characters between quotes. -/
theorem toList_string_append (s : String) (rest : List Char) :
    (string s).toList ++ rest = '"' :: (stringBody s.toList ++ '"' :: rest) := by
  rw [string, String.toList_append, String.toList_append, String.toList_join, List.flatMap_map,
    List.append_assoc, List.append_assoc]
  rfl

/-! ## Numbers -/

theorem le_ofDigitChars (cs : List Char) (k : Nat) : k ≤ Nat.ofDigitChars 10 cs k := by
  induction cs generalizing k with
  | nil => exact Nat.le_of_eq Nat.ofDigitChars_nil.symm
  | cons c cs ih =>
    rw [Nat.ofDigitChars_cons]
    exact Nat.le_trans (by omega) (ih _)

/-- Digits are all kept if they are those of a number of 64 bits. -/
theorem keep_eq {cs : List Char} {k : Nat} (h : Nat.ofDigitChars 10 cs k < UInt64.size) :
    keep k cs = (Nat.ofDigitChars 10 cs k, []) := by
  induction cs generalizing k with
  | nil => rw [keep, Nat.ofDigitChars_nil]
  | cons c cs ih =>
    rw [Nat.ofDigitChars_cons] at h ⊢
    have hlonger := Nat.lt_of_le_of_lt (le_ofDigitChars cs _) h
    rw [keep, if_pos hlonger, ih h]

/-- No superfluous zero is written in front of a number. -/
theorem head?_toDigits {n : Nat} (h : 0 < n) : (Nat.toDigits 10 n).head? ≠ some '0' := by
  induction n using Nat.strongRecOn with
  | ind n ih =>
    by_cases hlt : n < 10
    · have hsmall : ∀ m < 10, 0 < m → m.digitChar ≠ '0' := by decide
      rw [Nat.toDigits_of_lt_base hlt]
      simpa using hsmall n hlt h
    · have hge := Nat.le_of_not_lt hlt
      have hrest := ih _ (Nat.div_lt_self h (by decide)) (Nat.div_pos hge (by decide))
      rw [Nat.toDigits_of_base_le (by decide) hge]
      cases hfront : Nat.toDigits 10 (n / 10) with
      | nil => exact absurd hfront Nat.toDigits_ne_nil
      | cons c cs => rwa [hfront] at hrest

/-- The digits of a number have no superfluous zeros in front. -/
theorem isWhole_toDigits (n : Nat) : isWhole (Nat.toDigits 10 n) = true := by
  have hdigits := Text.isDigit_toDigits (n := n)
  rcases Nat.eq_zero_or_pos n with rfl | hpos
  · rfl
  · have hhead := head?_toDigits hpos
    unfold isWhole
    split
    · rfl
    · next heq => simp [heq] at hhead
    · next heq => exact absurd heq Nat.toDigits_ne_nil
    · exact List.all_eq_true.2 hdigits

/-- The digits of a number that fits 64 bits are read as that number. -/
theorem number?_toDigits {n : Nat} (h : n < UInt64.size) :
    number? (Nat.toDigits 10 n) = some (.nat n) := by
  have hdigits := Text.isDigit_toDigits (n := n)
  have hspan : (Nat.toDigits 10 n).span Char.isDigit = (Nat.toDigits 10 n, []) := by
    rw [List.span_eq_takeWhile_dropWhile, List.takeWhile_eq_self_iff.2 hdigits,
      List.dropWhile_eq_nil_iff.2 hdigits]
  -- The number fits, so no digit is dropped.
  have hkeep : keep 0 (Nat.toDigits 10 n) = (n, []) := by
    rw [keep_eq (by rwa [Nat.ofDigitChars_ten_toDigits]), Nat.ofDigitChars_ten_toDigits]
  have hunsigned : unsigned? false (Nat.toDigits 10 n) = some (.nat n) := by
    rw [unsigned?]
    simp only [hspan, isWhole_toDigits, wholeNumber, hkeep]
    rfl
  rw [number?]
  · exact hunsigned
  · intro cs heq
    have := hdigits '-' (heq ▸ List.mem_cons_self)
    cases this

/-! ## One lexeme -/

/-- What may stand behind a number or a word without being taken for more of it. -/
def Ends (rest : List Char) : Prop :=
  ∀ c ∈ rest.head?, isNumberChar c = false ∧ c.isAlpha = false

theorem takeWhile_of_ends {p : Char → Bool} {cs rest : List Char} (h : ∀ c ∈ cs, p c = true)
    (hrest : ∀ c ∈ rest.head?, p c = false) :
    (cs ++ rest).takeWhile p = cs ∧ (cs ++ rest).dropWhile p = rest := by
  rw [List.takeWhile_append_of_pos h, List.dropWhile_append_of_pos h]
  cases rest with
  | nil => simp
  | cons c rest => simp [hrest c rfl]

theorem isNumberChar_of_isDigit {c : Char} (h : c.isDigit = true) : isNumberChar c = true := by
  simp [isNumberChar, h]

/-- A lexeme that starts with a digit goes as far as the digits do. -/
theorem lexeme?_number {c : Char} {cs rest : List Char} (hc : c.isDigit = true)
    (hcs : ∀ c ∈ cs, c.isDigit = true) (hrest : Ends rest) :
    lexeme? c (cs ++ rest) = (number? (c :: cs)).map fun d => (.scalar d, rest) := by
  obtain ⟨htake, hdrop⟩ := takeWhile_of_ends (p := isNumberChar)
    (fun c hc => isNumberChar_of_isDigit (hcs c hc)) fun c hc => (hrest c hc).1
  rw [lexeme?.eq_8, if_pos (isNumberChar_of_isDigit hc), htake, hdrop]
  all_goals
    rintro rfl
    cases hc

/-- The digits of a number are one lexeme, if no more characters of numbers follow. -/
theorem lexeme?_toDigits {n : Nat} (h : n < UInt64.size) {c : Char} {cs rest : List Char}
    (hn : Nat.toDigits 10 n = c :: cs) (hrest : Ends rest) :
    isSpace c = false ∧ lexeme? c (cs ++ rest) = some (.scalar (.nat n), rest) := by
  have hdigits := Text.isDigit_toDigits (n := n)
  rw [hn] at hdigits
  obtain ⟨hc, hcs⟩ := List.forall_mem_cons.1 hdigits
  constructor
  · -- A digit is no space, so the lexeme starts with it.
    have hspace : ∀ c, isSpace c = true → c.isDigit = false := by
      intro c hc
      simp only [isSpace, Bool.or_eq_true, beq_iff_eq] at hc
      rcases hc with ((rfl | rfl) | rfl) | rfl <;> rfl
    rw [Bool.eq_false_iff]
    intro hs
    rw [hspace c hs] at hc
    cases hc
  · rw [lexeme?_number hc hcs hrest, ← hn, number?_toDigits h]
    rfl

/-- A word is read as what it stands for. -/
theorem lexeme?_word {c : Char} {cs rest : List Char} {d : Data}
    (hword : ∀ c' ∈ c :: cs, c'.isAlpha = true) (hc : isNumberChar c = false)
    (hd : literal? (String.ofList (c :: cs)) = some d) (hrest : Ends rest) :
    lexeme? c (cs ++ rest) = some (.scalar d, rest) := by
  obtain ⟨halpha, hcs⟩ := List.forall_mem_cons.1 hword
  obtain ⟨htake, hdrop⟩ := takeWhile_of_ends hcs fun c hc => (hrest c hc).2
  rw [lexeme?.eq_8, if_neg (by simp [hc]), htake, hdrop, hd]
  · rfl
  all_goals
    rintro rfl
    exact absurd halpha (by decide)

/-- A printed string is one lexeme. -/
theorem lexeme?_string (s : String) (rest : List Char) :
    lexeme? '"' (stringBody s.toList ++ '"' :: rest) = some (.string (some s), rest) := by
  rw [lexeme?, stringFrom_stringBody, List.reverse_nil, List.nil_append, String.ofList_toList]
  rfl

end DeltaForest.Json
