import DeltaForest.Protocol.Message
import DeltaForest.Text.Blank
import DeltaForest.Trouble

/-!
# Message files

Recorded messages, one JSON text a line or all in one CBOR list. Lines with nothing on them are
passed over but counted.
-/

namespace DeltaForest.MessageFile

open Protocol

/-- The messages on numbered lines. -/
def decodeLines : List (String × Nat) → Except Trouble (List Message)
  | [] => .ok []
  | (line, n) :: rest =>
    if Text.isBlankLine line.toList then decodeLines rest
    else
      match Message.ofJson? line with
      | some message => (decodeLines rest).map (message :: ·)
      | none => .error (.line n)

/-- The messages that a file holds. -/
def decode (format : FileFormat) (bytes : List UInt8) : Except Trouble (List Message) :=
  match format with
  | .json =>
    match Cbor.utf8? bytes with
    | some text => decodeLines ((Text.lines text).zipIdx 1)
    | none => .error .notText
  | .cbor =>
    match Message.listOfCbor? bytes with
    | some messages => .ok messages
    | none => .error .noMessages

/-- The text of a file of JSON lines. -/
def toLines (messages : List Message) : String :=
  String.join (messages.map fun message => message.toJson ++ "\n")

/-- The bytes of a file that holds messages. -/
def encode (format : FileFormat) (messages : List Message) : List UInt8 :=
  match format with
  | .json => Data.utf8 (toLines messages)
  | .cbor => Message.listToCbor messages

end DeltaForest.MessageFile
