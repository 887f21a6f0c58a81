import DeltaForest.Json.Lexeme

/-!
# Reading JSON text

A text is read lexeme by lexeme. What has been opened and not yet closed is kept as a stack of
frames, the innermost first; a finished tree is handed to the innermost frame, and when there is
none it is the whole text. Behind the tree only white space may follow. A list or map inside 127
others can be passed over but not read.
-/

namespace DeltaForest.Json

/-- A list or map that is not yet closed, with what it holds so far in reverse. -/
inductive Frame
  | list (items : List Data)
  | map (entries : List (Data × Data))
  /-- A map whose last entry lacks its value. -/
  | entry (entries : List (Data × Data)) (key : Data)

/-- What may come next. -/
inductive Stage
  /-- A value. -/
  | value
  /-- A value, or the end of the list that was just opened. -/
  | firstItem
  /-- A key. -/
  | key
  /-- A key, or the end of the map that was just opened. -/
  | firstKey
  /-- The colon behind a key. -/
  | colon
  /-- A comma, or the end of the innermost list or map. -/
  | more
  /-- Nothing: this is the tree. -/
  | done (tree : Data)

/-- How far a text has been read. -/
structure State where
  stack : List Frame
  stage : Stage

/-- Nothing has been read. -/
def State.start : State := ⟨[], .value⟩

/-- How many lists and maps may be around one that can be read. -/
def depthLimit : Nat := 127

/-- Hands a finished tree to the innermost frame. -/
def State.give (stack : List Frame) (d : Data) : State :=
  match stack with
  | [] => ⟨[], .done d⟩
  | .list items :: outer => ⟨.list (d :: items) :: outer, .more⟩
  | .entry entries key :: outer => ⟨.map ((key, d) :: entries) :: outer, .more⟩
  | .map entries :: outer => ⟨.entry entries d :: outer, .colon⟩

/-- Hands a list or map that has just been closed to the one around it. -/
def State.leave (outer : List Frame) (d : Data) : State :=
  State.give outer (if outer.length < depthLimit then d else .unreadable)

/-- The tree that a string stands for. -/
def textOf (s : Option String) : Data := (s.map .text).getD .unreadable

/-- Reads the lexeme that a value starts with. -/
def State.value? (stack : List Frame) : Lexeme → Option State
  | .openList => some ⟨.list [] :: stack, .firstItem⟩
  | .openMap => some ⟨.map [] :: stack, .firstKey⟩
  | .string s => some (State.give stack (textOf s))
  | .scalar d => some (State.give stack d)
  | _ => none

/-- Closes the innermost list or map, if the lexeme is its closing bracket. -/
def State.close? (stack : List Frame) (x : Lexeme) : Option State :=
  match stack, x with
  | .list items :: outer, .closeList => some (State.leave outer (.list items.reverse))
  | .map entries :: outer, .closeMap => some (State.leave outer (.map entries.reverse))
  | _, _ => none

/-- Reads a key. -/
def State.key? (stack : List Frame) (x : Lexeme) : Option State :=
  match stack, x with
  | .map entries :: outer, .string s => some ⟨.entry entries (textOf s) :: outer, .colon⟩
  | _, _ => none

/-- Reads one lexeme. -/
def State.step (s : State) (x : Lexeme) : Option State :=
  match s.stage, x with
  | .value, x => State.value? s.stack x
  | .firstItem, .closeList => State.close? s.stack .closeList
  | .firstItem, x => State.value? s.stack x
  | .key, x => State.key? s.stack x
  | .firstKey, .closeMap => State.close? s.stack .closeMap
  | .firstKey, x => State.key? s.stack x
  | .colon, .colon => some ⟨s.stack, .value⟩
  | .colon, _ => none
  | .more, .comma =>
    -- Behind a comma a map goes on with a key and a list with a value.
    match s.stack with
    | .map _ :: _ => some ⟨s.stack, .key⟩
    | _ => some ⟨s.stack, .value⟩
  | .more, x => State.close? s.stack x
  | .done _, _ => none

/-- Reads the rest of a text. -/
def State.run (s : State) (cs : List Char) : Option Data :=
  match cs with
  | [] =>
    match s.stage with
    | .done d => some d
    | _ => none
  | c :: rest =>
    if isSpace c then s.run rest
    else
      match _left : lexeme? c rest with
      | none => none
      | some (x, left) =>
        match s.step x with
        | none => none
        | some s => s.run left
termination_by cs.length
decreasing_by
  · simp
  · have := length_lexeme _left
    simp only [List.length_cons]
    omega

/-- The tree that a JSON text stands for. -/
def read (text : String) : Option Data :=
  State.start.run text.toList

end DeltaForest.Json
