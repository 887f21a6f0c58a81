import DeltaForest.Wire.Record

/-!
# Envelopes

An envelope is a map with a field for the kind of what is in it and one for the body, which is of
that kind. If the body stands in front, it is taken apart as a whole before its kind is known.
Further fields are passed over.

From JSON an envelope is read as a tree (`Data.envelope?`); there it may also be the list of a kind
and a body. In CBOR it has to be read from the bytes (`Cbor.envelope?`): the word for the kind may
have the head of a map with one entry in front, but then only the key of that entry belongs to it,
and what follows the key belongs to the envelope again.
-/

namespace DeltaForest

/-- The names of the fields of an envelope, and the words for the kinds. -/
structure EnvelopeNames where
  kind : String
  body : String
  words : List String

/-- The word for a kind, and the body with where it comes from. -/
structure Envelope where
  word : String
  source : Source
  body : Data

/-! ## Field by field -/

/-- What has been found of an envelope. -/
inductive Envelope.Found
  | nothing
  | kind (word : String)
  | body (d : Data)
  | both (e : Envelope)

namespace Envelope.Found

/-- The envelope, if it is complete. -/
def envelope? : Found → Option Envelope
  | both e => some e
  | _ => none

/-- What has been found with the word for the kind. -/
def withKind? (found : Found) (word : String) : Option Found :=
  match found with
  | nothing => some (kind word)
  | body d => some (both ⟨word, .part, d⟩)
  | _ => none

/-- What has been found with the body. `src` is where it comes from. -/
def withBody? (found : Found) (src : Source) (d : Data) : Option Found :=
  match found with
  | nothing => if src.takesApart d then some (body d) else none
  | kind word => some (both ⟨word, src, d⟩)
  | _ => none

end Envelope.Found

/-! ## From JSON -/

/-- Reads one field of an envelope of JSON. -/
def Envelope.Found.jsonField? (names : EnvelopeNames) (found : Found) (field : Label × Data) :
    Option Found :=
  if field.1 = .name names.kind then
    (Label.choice? .json names.words field.2).bind found.withKind?
  else if field.1 = .name names.body then found.withBody? .json field.2
  else some found

/-- Reads an envelope from a tree of JSON. -/
def Data.envelope? (names : EnvelopeNames) : Data → Option Envelope
  | .list [kind, body] =>
    ((Label.ofData .json kind).bind (Label.among names.words)).map (⟨·, .json, body⟩)
  | .map entries => do
    let entries ← labels? .json entries
    (← entries.foldlM (Envelope.Found.jsonField? names) .nothing).envelope?
  | _ => none

/-! ## From CBOR -/

namespace Cbor

/-- The head at the front behind tags, and what is left behind it. -/
def headBehindTags? (bytes : List UInt8) : Option (Head × List UInt8) :=
  match _front : head? bytes with
  | some (.tag _, rest) => headBehindTags? rest
  | front => front
termination_by bytes.length
decreasing_by exact length_head _front

/-- Takes a step so many times. -/
def times? {σ : Type} (step : σ → List UInt8 → Option (σ × List UInt8)) :
    Nat → σ → List UInt8 → Option (σ × List UInt8)
  | 0, s, bytes => some (s, bytes)
  | n + 1, s, bytes => (step s bytes).bind fun (s, bytes) => times? step n s bytes

/-- Takes a step until the stop code is reached. A step has to read something. -/
def untilStop? {σ : Type} (step : σ → List UInt8 → Option (σ × List UInt8)) (s : σ)
    (bytes : List UInt8) : Option (σ × List UInt8) :=
  match head? bytes with
  | some (.stop, rest) => some (s, rest)
  | _ =>
    match step s bytes with
    -- A step that reads nothing would be taken for ever.
    | some (s, rest) => if rest.length < bytes.length then untilStop? step s rest else none
    | none => none
termination_by bytes.length

/-- Takes a step for every item or entry that a length announces. -/
def forLength? {σ : Type} (step : σ → List UInt8 → Option (σ × List UInt8)) (s : σ)
    (length : Option Nat) (bytes : List UInt8) : Option (σ × List UInt8) :=
  match length with
  | some n => times? step n s bytes
  | none => untilStop? step s bytes

/-- The label at the front. -/
def label? (bytes : List UInt8) : Option (Label × List UInt8) :=
  (item? bytes).bind fun (d, rest) => (Label.ofCbor d).map (·, rest)

/-- The choice among `words` at the front. -/
def choice? (words : List String) (bytes : List UInt8) : Option (String × List UInt8) :=
  match headBehindTags? bytes with
  -- Only the key is read; the value of the entry is left for the envelope.
  | some (.map (some 1), rest) =>
    (label? rest).bind fun (label, rest) => (label.among words).map (·, rest)
  | some (.text _, _) => (label? bytes).bind fun (label, rest) => (label.among words).map (·, rest)
  | _ => none

/-- Reads one field of an envelope. `src` is where its fields come from. -/
def envelopeField? (names : EnvelopeNames) (src : Source) (found : Envelope.Found)
    (bytes : List UInt8) : Option (Envelope.Found × List UInt8) := do
  let (label, bytes) ← label? bytes
  if label = .name names.kind then
    let (word, rest) ← choice? names.words bytes
    return (← found.withKind? word, rest)
  else
    let (d, rest) ← item? bytes
    if label = .name names.body then return (← found.withBody? src d, rest)
    else if src.passesOver d then return (found, rest)
    else none

/-- Reads an envelope from the front of the bytes. `src` is where it comes from. -/
def envelope? (names : EnvelopeNames) (src : Source) (bytes : List UInt8) :
    Option (Envelope × List UInt8) :=
  match headBehindTags? bytes with
  | some (.map length, rest) =>
    (forLength? (envelopeField? names src.inside) .nothing length rest).bind fun (found, rest) =>
      found.envelope?.map (·, rest)
  | _ => none

/-- Reads the list of envelopes at the front of the bytes. A byte string stands for a list of
    numbers, so only the empty one is a list of envelopes. -/
def envelopes? (names : EnvelopeNames) (bytes : List UInt8) : Option (List Envelope) :=
  match headBehindTags? bytes with
  | some (.list length, rest) =>
    (forLength? (fun es bytes => (envelope? names (.cbor 1) bytes).map fun (e, rest) =>
      (e :: es, rest)) [] length rest).map fun (es, _) => es.reverse
  | some (.bytes _, _) =>
    match (item? bytes).bind fun (d, _) => itemsOf (.cbor 0) d with
    | some [] => some []
    | _ => none
  | _ => none

end Cbor

end DeltaForest
