import DeltaForest.Trouble

/-!
# Settings

What the environment of the program decides: the participation for replayed commands, the format
of files whose names do not tell it, whether the order of events is enforced, and where languages
are defined.
-/

namespace DeltaForest

/-- The settings of the program. -/
structure Settings where
  /-- The participation for replayed commands, if it is given. -/
  participation : Option ParticipationId
  format : FileFormat
  enforcesOrder : Bool
  /-- The paths of language files. -/
  languages : List String
  deriving DecidableEq, Repr, Inhabited

/-- The format that a text names, in letters of either case. -/
def FileFormat.parse (s : String) : Except Trouble FileFormat :=
  match FileFormat.ofWord? (Text.lowerAscii s) with
  | some format => .ok format
  | none => .error (.unknownFormat (Text.lowerAscii s))

namespace Settings

/-- The truth value that a text names, in letters of either case. -/
def flag (s : String) : Except Trouble Bool :=
  let word := Text.lowerAscii s
  if word ∈ ["1", "true", "yes", "on"] then .ok true
  else if word ∈ ["0", "false", "no", "off"] then .ok false
  else .error (.unknownFlag word)

/-- The meaning of a variable, or a default if it is not set. -/
def meaning {α : Type} (lookup : String → Option String) (name : String) (default : α)
    (read : String → Except Trouble α) : Except Trouble α :=
  match lookup name with
  | none => .ok default
  | some s => (read s).mapError (.setting name)

/-- The settings that environment variables make. -/
def ofEnvironment (lookup : String → Option String) : Except Trouble Settings := do
  let format ← meaning lookup "LIONSYNC_FORMAT" .json FileFormat.parse
  let enforcesOrder ← meaning lookup "LIONSYNC_ENFORCE_SEQUENCE" true flag
  return {
    participation := (lookup "LIONSYNC_PARTICIPATION_ID").map ParticipationId.mk
    format := format
    enforcesOrder := enforcesOrder
    languages :=
      match lookup "LIONSYNC_LANGUAGES" with
      | some paths => (Text.cut ':' paths).filter (· ≠ "")
      | none => [] }

end Settings

end DeltaForest
