import DeltaForest.Fault
import DeltaForest.FileFormat

/-!
# What can go wrong on the command line

Around the faults of a forest there is more that can go wrong: settings, files and their contents.
A trouble is reported as a chain of lines, from what was attempted down to the reason. Why a file
could not be read or decoded is not told in detail.
-/

namespace DeltaForest

/-- A reason why the program gives up. -/
inductive Trouble
  /-- A word in lower case stands for no file format. -/
  | unknownFormat (word : String)
  /-- A word in lower case stands for no truth value. -/
  | unknownFlag (word : String)
  /-- A setting cannot be understood. -/
  | setting (name : String) (reason : Trouble)
  | noLanguages
  | unreadable (path : String)
  | unwritable (path : String)
  /-- A file holds no language. -/
  | noLanguage (path : String)
  /-- A language from a file cannot be registered. -/
  | language (key path : String) (fault : Fault)
  /-- A file that should be text is none. -/
  | notText
  /-- A line, counted from one, holds no message. -/
  | line (number : Nat)
  /-- Bytes hold no list of messages. -/
  | noMessages
  /-- A file of messages cannot be understood. -/
  | undecodable (path : String) (format : FileFormat) (reason : Trouble)
  /-- A message was refused. -/
  | rejected (index : Nat) (kind : String) (fault : Fault)
  /-- A partition cannot be written. -/
  | partition (root : NodeId) (fault : Fault)
  /-- A forest fails where it should not. -/
  | broken (fault : Fault)
  deriving DecidableEq, Repr, Inhabited

namespace Trouble

/-- The report of a trouble, from the outermost line to the innermost. -/
def chain : Trouble → List String
  | unknownFormat word => ["unknown wire format '" ++ word ++ "', expected 'json' or 'cbor'"]
  | unknownFlag word => ["expected a boolean, got '" ++ word ++ "'"]
  | setting name reason => ("Invalid " ++ name) :: reason.chain
  | noLanguages => ["replay needs language definitions; set LIONSYNC_LANGUAGES"]
  | unreadable path => ["Failed to read " ++ path, "io error"]
  | unwritable path => ["Failed to write " ++ path, "io error"]
  | noLanguage path => ["Invalid language file " ++ path, "json error"]
  | language key path fault =>
    ["Failed to register language " ++ key ++ " from " ++ path, fault.message]
  | notText => ["JSON message file is not UTF-8", "utf8 error"]
  | line number => ["line " ++ toString number, "deserialization error"]
  | noMessages => ["Invalid CBOR message array", "cbor error"]
  | undecodable path format reason =>
    ("Failed to decode " ++ path ++ " as " ++ format.word) :: reason.chain
  | rejected index kind fault =>
    ["Message " ++ toString index ++ " (" ++ kind ++ ") was rejected", fault.message]
  | partition root fault => ["Failed to serialize partition " ++ root.text, fault.message]
  | broken fault => [fault.message]

/-- The lines for the reasons below the outermost one, which are numbered if there are several. -/
def causes : List String → String
  | [] => ""
  | [only] => "\n\nCaused by:\n    " ++ only
  | several =>
    "\n\nCaused by:" ++
      String.join (several.mapIdx fun i s => "\n" ++ Text.padLeft 5 (toString i) ++ ": " ++ s)

/-- The report of a trouble in one text. -/
def report (t : Trouble) : String :=
  match t.chain with
  | [] => ""
  | first :: rest => "Error: " ++ first ++ causes rest ++ "\n"

end Trouble

end DeltaForest
