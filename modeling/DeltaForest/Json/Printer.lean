import DeltaForest.Data
import DeltaForest.Text.Quoted

/-!
# JSON text

A data tree as JSON, in one line without spaces or over several lines with two spaces per level.
Text is written as it is apart from the quote, the backslash and the control characters below the
space, which have a short form or are written with four hexadecimal digits.
-/

namespace DeltaForest

namespace Json

/-- A number below 65536 in four hexadecimal digits. -/
def hex4 (n : Nat) : String :=
  let digits := Nat.toDigits 16 n
  String.ofList (List.replicate (4 - digits.length) '0' ++ digits)

/-- One character inside a JSON string. -/
def stringChar (c : Char) : String :=
  match c with
  | '"' => "\\\""
  | '\\' => "\\\\"
  | '\n' => "\\n"
  | '\r' => "\\r"
  | '\t' => "\\t"
  | '\x08' => "\\b"
  | '\x0c' => "\\f"
  | c => if c.toNat < 0x20 then "\\u" ++ hex4 c.toNat else c.toString

/-- A text as a JSON string. -/
def string (s : String) : String :=
  "\"" ++ String.join (s.toList.map stringChar) ++ "\""

/-- The name that a key stands for in an object; only texts are names. -/
def name : Data → String
  | .text s => s
  | _ => ""

/-- A tree without parts. Byte strings have no JSON form of their own. -/
def scalar : Data → String
  | .bool b => if b then "true" else "false"
  | .nat n => toString n
  | .negative n => "-" ++ toString (n + 1)
  | .real => "0.0"
  | .text s => string s
  | _ => "null"

end Json

namespace Data

open Json

mutual

/-- A tree as JSON in one line. -/
def toJson : Data → String
  | .list items => "[" ++ toJsonItems items ++ "]"
  | .map entries => "\x7b" ++ toJsonEntries entries ++ "\x7d"
  | .pieces d | .tagged _ d => toJson d
  | d => scalar d

/-- The items of a list, with commas between them. -/
def toJsonItems : List Data → String
  | [] => ""
  | [d] => toJson d
  | d :: rest => toJson d ++ "," ++ toJsonItems rest

/-- The entries of an object, with commas between them. -/
def toJsonEntries : List (Data × Data) → String
  | [] => ""
  | [(k, v)] => string (name k) ++ ":" ++ toJson v
  | (k, v) :: rest => string (name k) ++ ":" ++ toJson v ++ "," ++ toJsonEntries rest

end

/-- A line break, and two spaces per level. -/
def newline (level : Nat) : String :=
  "\n" ++ String.ofList (List.replicate (2 * level) ' ')

mutual

/-- A tree as JSON with one item or entry per line, at a level of indentation. -/
def toPrettyJson (level : Nat) : Data → String
  | .list [] => "[]"
  | .map [] => "\x7b\x7d"
  | .list items => "[" ++ toPrettyItems (level + 1) items ++ newline level ++ "]"
  | .map entries => "\x7b" ++ toPrettyEntries (level + 1) entries ++ newline level ++ "\x7d"
  | .pieces d | .tagged _ d => toPrettyJson level d
  | d => scalar d

/-- The items of a list, each on its own line. -/
def toPrettyItems (level : Nat) : List Data → String
  | [] => ""
  | [d] => newline level ++ toPrettyJson level d
  | d :: rest => newline level ++ toPrettyJson level d ++ "," ++ toPrettyItems level rest

/-- The entries of an object, each on its own line. -/
def toPrettyEntries (level : Nat) : List (Data × Data) → String
  | [] => ""
  | [(k, v)] => newline level ++ string (name k) ++ ": " ++ toPrettyJson level v
  | (k, v) :: rest =>
    newline level ++ string (name k) ++ ": " ++ toPrettyJson level v ++ "," ++
      toPrettyEntries level rest

end

end Data

end DeltaForest
