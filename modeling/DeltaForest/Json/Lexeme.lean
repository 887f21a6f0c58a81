import DeltaForest.Json.Number

/-!
# Lexemes of JSON

The first step of reading JSON: a text as brackets, commas, colons and scalars. Every reader here
takes the longest lexeme at the front and returns what is left behind it; what is left is shorter,
so that reading a whole text ends.
-/

namespace DeltaForest.Json

/-- A lexeme of JSON. -/
inductive Lexeme
  | openList
  | closeList
  | openMap
  | closeMap
  | comma
  | colon
  /-- A string, unless it cannot be read. -/
  | string (s : Option String)
  /-- A number, truth value or `null`. -/
  | scalar (d : Data)

/-! ## Strings -/

/-- The value of a hexadecimal digit. -/
def hexDigit? (c : Char) : Option Nat :=
  if '0' ≤ c ∧ c ≤ '9' then some (c.toNat - '0'.toNat)
  else if 'a' ≤ c ∧ c ≤ 'f' then some (c.toNat - 'a'.toNat + 10)
  else if 'A' ≤ c ∧ c ≤ 'F' then some (c.toNat - 'A'.toNat + 10)
  else none

/-- The value of four hexadecimal digits. -/
def hex4? (a b c d : Char) : Option Nat := do
  return (((← hexDigit? a) * 16 + (← hexDigit? b)) * 16 + (← hexDigit? c)) * 16 +
    (← hexDigit? d)

/-- The character that a backslash and a letter stand for. -/
def escaped? : Char → Option Char
  | '"' => some '"'
  | '\\' => some '\\'
  | '/' => some '/'
  | 'b' => some '\x08'
  | 'f' => some '\x0c'
  | 'n' => some '\n'
  | 'r' => some '\r'
  | 't' => some '\t'
  | _ => none

/-- Whether a number is the first half of a pair of surrogates. -/
def isHigh (n : Nat) : Bool := 0xd800 ≤ n && n < 0xdc00

/-- Whether a number is the second half of a pair of surrogates. -/
def isLow (n : Nat) : Bool := 0xdc00 ≤ n && n < 0xe000

/-- The second half of a pair of surrogates, if it is the escape that follows. -/
def secondHalf? : List Char → Option Nat
  | '\\' :: 'u' :: a :: b :: c :: d :: _ => (hex4? a b c d).filter isLow
  | _ => none

/-- The rest of a string behind its opening quote, in reverse behind `done`, and what follows the
    closing quote. Raw control characters are refused. With half of a surrogate pair on its own the
    string goes on, but cannot be read. -/
def stringFrom (done : Option (List Char)) (cs : List Char) :
    Option (Option String × List Char) :=
  match cs with
  | '"' :: rest => some (done.map fun cs => String.ofList cs.reverse, rest)
  | '\\' :: 'u' :: a :: b :: c :: d :: rest =>
    match hex4? a b c d with
    | none => none
    | some n =>
      if isHigh n then
        match secondHalf? rest with
        | some m =>
          let c := Char.ofNat (0x10000 + (n - 0xd800) * 0x400 + (m - 0xdc00))
          stringFrom (done.map (c :: ·)) (rest.drop 6)
        | none => stringFrom none rest
      else if isLow n then stringFrom none rest
      else stringFrom (done.map (Char.ofNat n :: ·)) rest
  | '\\' :: c :: rest =>
    match escaped? c with
    | none => none
    | some c => stringFrom (done.map (c :: ·)) rest
  | c :: rest => if c.toNat < 0x20 then none else stringFrom (done.map (c :: ·)) rest
  | [] => none
termination_by cs.length

/-! ## One lexeme -/

/-- Whether a character may stand between lexemes. -/
def isSpace (c : Char) : Bool :=
  c == ' ' || c == '\n' || c == '\t' || c == '\r'

/-- What the literal names stand for. -/
def literal? (s : String) : Option Data :=
  if s = "null" then some .null
  else if s = "true" then some (.bool true)
  else if s = "false" then some (.bool false)
  else none

/-- The lexeme that starts with a character, and what is left behind it. -/
def lexeme? (c : Char) (rest : List Char) : Option (Lexeme × List Char) :=
  match c with
  | '[' => some (.openList, rest)
  | ']' => some (.closeList, rest)
  | '\x7b' => some (.openMap, rest)
  | '\x7d' => some (.closeMap, rest)
  | ',' => some (.comma, rest)
  | ':' => some (.colon, rest)
  | '"' => (stringFrom (some []) rest).map fun (s, rest) => (.string s, rest)
  | c =>
    -- All characters that can stand in a number are taken, whether they make one or not.
    if isNumberChar c then
      (number? (c :: rest.takeWhile isNumberChar)).map fun d =>
        (.scalar d, rest.dropWhile isNumberChar)
    else
      (literal? (String.ofList (c :: rest.takeWhile Char.isAlpha))).map fun d =>
        (.scalar d, rest.dropWhile Char.isAlpha)

/-! ## What is left is shorter -/

theorem length_dropWhile_le {α : Type} (p : α → Bool) (xs : List α) :
    (xs.dropWhile p).length ≤ xs.length :=
  (List.dropWhile_suffix p).length_le

/-- Behind a string less is left than before it. -/
theorem length_stringFrom {done : Option (List Char)} {cs rest : List Char} {s : Option String}
    (h : stringFrom done cs = some (s, rest)) : rest.length < cs.length := by
  fun_induction stringFrom done cs <;> simp_all <;> omega

/-- Behind a lexeme no more is left than behind its first character. -/
theorem length_lexeme {c : Char} {cs rest : List Char} {x : Lexeme}
    (h : lexeme? c cs = some (x, rest)) : rest.length ≤ cs.length := by
  unfold lexeme? at h
  split at h
  case h_7 =>
    obtain ⟨⟨s, rest'⟩, hs, he⟩ := Option.map_eq_some_iff.1 h
    cases he
    exact Nat.le_of_lt (length_stringFrom hs)
  case h_8 =>
    split at h
    all_goals
      obtain ⟨d, _, he⟩ := Option.map_eq_some_iff.1 h
      cases he
      exact length_dropWhile_le _ _
  all_goals
    cases h
    exact Nat.le_refl _

end DeltaForest.Json
