/-!
# Heads of CBOR items

Every CBOR item starts with a head: three bits for what it is, five bits for its argument or for
how many bytes the argument takes. The argument is a number, a length, a tag or a simple value; a
length may be left open, and then the item ends with a stop code of its own.
-/

namespace DeltaForest.Cbor

/-- The head of an item. -/
inductive Head
  | nat (n : Nat)
  /-- The number `-1 - n`. -/
  | negative (n : Nat)
  /-- A byte string, with its length unless that is open. -/
  | bytes (length : Option Nat)
  /-- A text, with its length in bytes unless that is open. -/
  | text (length : Option Nat)
  /-- A list, with the number of its items unless that is open. -/
  | list (length : Option Nat)
  /-- A map, with the number of its entries unless that is open. -/
  | map (length : Option Nat)
  | tag (n : Nat)
  /-- A simple value, such as a truth value. -/
  | simple (n : Nat)
  /-- A floating-point number. -/
  | real
  /-- The end of an item whose length is open. -/
  | stop
  deriving DecidableEq, Repr

/-! ## Writing -/

/-- The bytes of a number, the highest first. -/
def bigEndian : (width : Nat) → Nat → List UInt8
  | 0, _ => []
  | width + 1, n => UInt8.ofNat (n >>> (8 * width)) :: bigEndian width n

/-- A head with an argument, in as few bytes as it takes. -/
def withArgument (major : Nat) (n : Nat) : List UInt8 :=
  if n < 24 then [UInt8.ofNat (32 * major + n)]
  else if n < UInt8.size then UInt8.ofNat (32 * major + 24) :: bigEndian 1 n
  else if n < UInt16.size then UInt8.ofNat (32 * major + 25) :: bigEndian 2 n
  else if n < UInt32.size then UInt8.ofNat (32 * major + 26) :: bigEndian 4 n
  else UInt8.ofNat (32 * major + 27) :: bigEndian 8 n

/-- A head with a length, which may be open. -/
def withLength (major : Nat) : Option Nat → List UInt8
  | some n => withArgument major n
  | none => [UInt8.ofNat (32 * major + 31)]

/-- The bytes of a head. A floating-point number is written as zero of half precision. -/
def Head.toBytes : Head → List UInt8
  | .nat n => withArgument 0 n
  | .negative n => withArgument 1 n
  | .bytes length => withLength 2 length
  | .text length => withLength 3 length
  | .list length => withLength 4 length
  | .map length => withLength 5 length
  | .tag n => withArgument 6 n
  | .simple n => withArgument 7 n
  | .real => [0xf9, 0, 0]
  | .stop => [0xff]

/-! ## Reading -/

/-- The number that bytes stand for, the highest first. -/
def ofBigEndian (bytes : List UInt8) : Nat :=
  bytes.foldl (fun n b => 256 * n + b.toNat) 0

/-- A number of so many bytes at the front, and what is left behind it. -/
def number? (width : Nat) (bytes : List UInt8) : Option (Nat × List UInt8) :=
  if width ≤ bytes.length then some (ofBigEndian (bytes.take width), bytes.drop width) else none

/-- The argument that five bits announce, which is `none` if it is left open: the small ones are
    the argument itself, the next four say that it takes 1, 2, 4 or 8 bytes. -/
def argument? (minor : Nat) (bytes : List UInt8) : Option (Option Nat × List UInt8) :=
  if minor < 24 then some (some minor, bytes)
  else if minor < 28 then
    (number? (1 <<< (minor - 24)) bytes).map fun (n, rest) => (some n, rest)
  -- The three between are reserved.
  else if minor = 31 then some (none, bytes)
  else none

/-- The head with a kind, the five bits behind it and its argument. -/
def Head.of? (major minor : Nat) (argument : Option Nat) : Option Head :=
  match major, argument with
  | 0, some n => some (.nat n)
  | 1, some n => some (.negative n)
  | 2, length => some (.bytes length)
  | 3, length => some (.text length)
  | 4, length => some (.list length)
  | 5, length => some (.map length)
  | 6, some n => some (.tag n)
  | 7, none => some .stop
  -- From 25 to 27 the argument is the bits of a floating-point number.
  | 7, some n => some (if minor ≤ 24 then .simple n else .real)
  | _, _ => none

/-- The head at the front, and what is left behind it. -/
def head? : List UInt8 → Option (Head × List UInt8)
  | [] => none
  | b :: bytes =>
    match argument? (b.toNat % 32) bytes with
    | none => none
    | some (argument, rest) => (Head.of? (b.toNat / 32) (b.toNat % 32) argument).map (·, rest)

/-! ## What is left is shorter -/

theorem length_number {width n : Nat} {bytes rest : List UInt8}
    (h : number? width bytes = some (n, rest)) : rest.length ≤ bytes.length := by
  unfold number? at h
  split at h
  · cases h
    simp
  · cases h

theorem length_argument {minor : Nat} {a : Option Nat} {bytes rest : List UInt8}
    (h : argument? minor bytes = some (a, rest)) : rest.length ≤ bytes.length := by
  unfold argument? at h
  split at h
  · cases h
    exact Nat.le_refl _
  split at h
  · obtain ⟨⟨n, rest'⟩, hn, he⟩ := Option.map_eq_some_iff.1 h
    cases he
    exact length_number hn
  split at h
  · cases h
    exact Nat.le_refl _
  · cases h

/-- Behind a head less is left than before it. -/
theorem length_head {x : Head} {bytes rest : List UInt8} (h : head? bytes = some (x, rest)) :
    rest.length < bytes.length := by
  cases bytes with
  | nil => cases h
  | cons b bytes =>
    simp only [head?] at h
    split at h
    · cases h
    · next argument rest' ha =>
      obtain ⟨x', _, he⟩ := Option.map_eq_some_iff.1 h
      cases he
      exact Nat.lt_succ_of_le (length_argument ha)

end DeltaForest.Cbor
