import DeltaForest.LanguageFile
import DeltaForest.MessageFile
import DeltaForest.Replay
import DeltaForest.Settings

/-!
# The command line

The program lists, converts and replays files of recorded messages. What it does is decided here
without touching anything: given what the environment says and what files hold, the outcome tells
what to print, what to write, and how to end.
-/

namespace DeltaForest.CommandLine

open Protocol

/-- What the program finds. -/
structure Surroundings where
  /-- The value of an environment variable. -/
  environment : String → Option String
  /-- What a file holds, if it can be read. -/
  read? : String → Option (List UInt8)

/-- How the program ends. -/
inductive Ending
  | success
  /-- It was called in a wrong way, and says so in a line. -/
  | misuse (line : String)
  | trouble (reason : Trouble)
  deriving DecidableEq, Repr, Inhabited

/-- What the program does: it prints a text, then writes a file if there is one to write, and
    ends. -/
structure Outcome where
  output : String
  file : Option (String × List UInt8)
  ending : Ending
  deriving DecidableEq, Repr, Inhabited

namespace Outcome

/-- The outcome if a text is printed and nothing is written. -/
def printed (output : String) : Outcome := ⟨output, none, .success⟩

/-- The outcome if the program ends like this after printing a text. -/
def ended (output : String) (ending : Ending) : Outcome := ⟨output, none, ending⟩

/-- The outcome if the file cannot be written. -/
def unwritten (o : Outcome) : Outcome :=
  match o.file with
  | some (path, _) => ⟨o.output, none, .trouble (.unwritable path)⟩
  | none => o

end Outcome

/-- What is printed when help is asked for. -/
def help : String := "lionsync CLI

USAGE:
    lionsync <COMMAND> [OPTIONS]

COMMANDS:
    inspect <messages>                List recorded messages with their category and kind
    convert <input> <output>          Re-encode a message file (.json lines or .cbor)
    replay <messages> [output.json]   Apply commands and events to an empty forest
    help                              Show this help message

ENVIRONMENT:
    LIONSYNC_FORMAT              json or cbor, for files without a known extension
    LIONSYNC_LANGUAGES           language definition files used by replay
    LIONSYNC_PARTICIPATION_ID    participation replayed commands are attributed to
    LIONSYNC_ENFORCE_SEQUENCE    drop duplicate events and stop at gaps (default true)
    RUST_LOG                     log filter (default info)

EXAMPLES:
    lionsync inspect session.jsonl
    lionsync convert session.jsonl session.cbor
    LIONSYNC_LANGUAGES=library.json lionsync replay session.jsonl partitions.json

"

/-! ## Listing messages -/

/-- What a message is about, in short. -/
def detail : Message → String
  | .command c => ",".intercalate (c.parts.map (·.id.text))
  | .event e =>
    "#" ++ toString e.number ++ " " ++
      ",".intercalate (e.event.parts.flatMap fun part => part.origins.map CommandSource.text)
  | .queryRequest q => q.id.text
  | .queryResponse q => q.id.text
  | .commandResponse a => a.command.text
  | .error r => r.code

/-- The line for a message. -/
def messageLine (index : Nat) (message : Message) : String :=
  Text.padLeft 5 (toString index) ++ "  " ++ Text.padRight 16 message.category.word ++ " " ++
    Text.padRight 48 message.kind ++ " " ++ detail message ++ "\n"

/-- The line for the number of messages of a category, if there are any. The categories are
    listed in the order of the alphabet. -/
def countLine (messages : List Message) (category : Category) : String :=
  let n := messages.countP (·.category = category)
  if n = 0 then "" else Text.padRight 16 category.word ++ " " ++ toString n ++ "\n"

/-- The categories in the order of the alphabet. -/
def sortedCategories : List Category :=
  [.command, .commandResponse, .error, .event, .queryRequest, .queryResponse]

/-- The list of messages. -/
def listing (messages : List Message) : String :=
  String.join (messages.mapIdx messageLine) ++ "\n" ++
    String.join (sortedCategories.map (countLine messages))

/-! ## Commands -/

/-- The messages of a file. The name of the file tells the format, or else the settings do. -/
def readMessages (w : Surroundings) (settings : Settings) (path : String) :
    Except Trouble (List Message) :=
  let format := (FileFormat.ofPath? path).getD settings.format
  match w.read? path with
  | none => .error (.unreadable path)
  | some bytes => (MessageFile.decode format bytes).mapError (.undecodable path format)

/-- Lists the messages of a file. -/
def inspect (w : Surroundings) (settings : Settings) (input : String) :
    Except Trouble Outcome := do
  return .printed (listing (← readMessages w settings input))

/-- Writes the messages of a file into another one. -/
def convert (w : Surroundings) (settings : Settings) (input output : String) :
    Except Trouble Outcome := do
  let messages ← readMessages w settings input
  let format := (FileFormat.ofPath? output).getD settings.format
  return ⟨"", some (output, MessageFile.encode format messages), .success⟩

/-- Replays the messages of a file and writes the partitions into another one, if there is one. A
    participation that is not given is the one with the empty id. -/
def replay (w : Surroundings) (settings : Settings) (input : String) (output : Option String) :
    Except Trouble Outcome := do
  if settings.languages.isEmpty then throw .noLanguages
  let types ← LanguageFile.loadAll w.read? settings.languages
  let messages ← readMessages w settings input
  let start := Replayer.start types (settings.participation.getD ⟨""⟩) settings.enforcesOrder
  match Replayer.Action.replay messages start with
  | .error reason _ => throw reason
  | .ok summary replayer =>
    let report := (toData summary).toPrettyJson 0 ++ "\n"
    -- The report is printed even if the partitions cannot be written as chunks.
    match output with
    | none => return .printed report
    | some path =>
      match replayer.partitions with
      | .ok chunks =>
        return ⟨report, some (path, Data.utf8 ((toData chunks).toPrettyJson 0)), .success⟩
      | .error reason => return .ended report (.trouble reason)

/-- Runs a command with settings. -/
def runCommand (w : Surroundings) (settings : Settings) :
    List String → Except Trouble Outcome
  | "inspect" :: input :: _ => inspect w settings input
  | "inspect" :: _ => return .ended "" (.misuse "Usage: lionsync inspect <messages>")
  | "convert" :: input :: output :: _ => convert w settings input output
  | "convert" :: _ => return .ended "" (.misuse "Usage: lionsync convert <input> <output>")
  | "replay" :: input :: rest => replay w settings input rest.head?
  | "replay" :: _ =>
    return .ended "" (.misuse "Usage: lionsync replay <messages> [partitions.json]")
  | "help" :: _ | "--help" :: _ | "-h" :: _ => return .printed help
  | command :: _ => return .ended help (.misuse ("Unknown command: " ++ command))
  | [] => return .printed help

/-- Runs the program. Without arguments it does not look at the settings. -/
def run (w : Surroundings) (arguments : List String) : Outcome :=
  if arguments.isEmpty then .printed help
  else
    match Settings.ofEnvironment w.environment >>= (runCommand w · arguments) with
    | .ok outcome => outcome
    | .error reason => .ended "" (.trouble reason)

end DeltaForest.CommandLine
