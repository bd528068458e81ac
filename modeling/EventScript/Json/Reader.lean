import EventScript.Text

/-!
Reading JSON from left to right.

A reader takes what it reads off the front of a text. It stops at the first thing that is wrong, so
which fault a document has is decided by what comes first in it.

* `Json.Fault`: the three ways in which a document can be refused;
* `Json.Reader`: readers, as computations on the text that is left;
* `Json.Reader.elements`, `Json.Reader.members`: arrays and objects, given a reader of what stands
  in them.
-/

namespace EventScript.Json

/-- Why a document was refused. -/
inductive Fault where
  /-- The text ends before the document does. -/
  | endsEarly
  /-- The text is not JSON. -/
  | malformed
  /-- The text is JSON as far as it was read, but not of the shape that is asked for. -/
  | unfit
deriving DecidableEq, Repr

/-- A reader of a value from the front of a text. -/
abbrev Reader (α : Type) := StateT Text (Except Fault) α

namespace Reader

variable {α σ : Type}

/-- Refuses the document. -/
def refuse (f : Fault) : Reader α := fun _ => .error f

/-- The next character, which is left where it is. -/
def peek : Reader (Option Char) := fun t => .ok (t.head?, t)

/-- Drops the next character. -/
def skip : Reader Unit := fun t => .ok ((), t.tail)

/-- Takes the characters of a class off the front of the text. -/
def takeWhile (p : Char → Bool) : Reader Text := fun t => .ok (t.takeWhile p, t.dropWhile p)

/-- Whether a character may stand between the tokens of JSON. -/
def isBlank (c : Char) : Bool := c == ' ' || c == '\n' || c == '\t' || c == '\r'

/-- The next character behind blanks, which are dropped. -/
def token : Reader (Option Char) := do
  let _ ← takeWhile isBlank
  peek

/-- Runs a loop whose rounds are counted off a text: the one that is left, and a character more. A
loop that takes a character in every round is through before that text has run out. -/
def inRounds (loop : Text → Reader α) : Reader α := fun t => loop (' ' :: t) t

/-- The rest of a word whose first character was taken. -/
def word : Text → Reader Unit
  | [] => pure ()
  | c :: rest => do
    match ← peek with
    | none => refuse .endsEarly
    | some d =>
      skip
      if d = c then word rest else refuse .malformed

/-! ### Arrays -/

/-- Whether an array goes on with an element, in front of which the comma is taken; the closing
bracket is left where it is. -/
def hasElement (isFirst : Bool) : Reader Bool := do
  match ← token with
  | none => refuse .endsEarly
  | some ']' => pure false
  | some c =>
    if isFirst then pure true
    else if c = ',' then
      skip
      match ← token with
      | none => refuse .endsEarly
      | some ']' => refuse .malformed
      | some _ => pure true
    else refuse .malformed

/-- The end of an array that may not go on. -/
def arrayEnd : Reader Unit := do
  match ← token with
  | none => refuse .endsEarly
  | some ']' => skip
  | some _ => refuse .malformed

/-- The elements of an array up to its closing bracket, which is taken too. -/
def elementsLoop (item : Reader α) : Text → Bool → Reader (List α)
  | [], _ => refuse .endsEarly
  | _ :: rounds, isFirst => do
    if ← hasElement isFirst then
      let x ← item
      let xs ← elementsLoop item rounds false
      pure (x :: xs)
    else
      arrayEnd
      pure []

/-- The elements of an array whose opening bracket was taken. -/
def elements (item : Reader α) : Reader (List α) :=
  inRounds fun rounds => elementsLoop item rounds true

/-! ### Objects -/

/-- The colon between a key and its value. -/
def colon : Reader Unit := do
  match ← token with
  | none => refuse .endsEarly
  | some ':' => skip
  | some _ => refuse .malformed

/-- The members of an object up to its closing brace, which is taken too. The reader of a member
starts behind the opening quote of the key, and changes a state. -/
def membersLoop (member : σ → Reader σ) : Text → Bool → σ → Reader σ
  | [], _, _ => refuse .endsEarly
  | _ :: rounds, isFirst, s => do
    match ← token with
    | none => refuse .endsEarly
    | some '}' =>
      skip
      pure s
    | some c =>
      if c = ',' ∧ ¬isFirst then skip
      if c ≠ ',' ∧ ¬isFirst then refuse .malformed
      match ← token with
      | none => refuse .endsEarly
      | some '"' =>
        skip
        let s ← member s
        membersLoop member rounds false s
      | some _ => refuse .malformed

/-- The members of an object whose opening brace was taken. -/
def members (member : σ → Reader σ) (s : σ) : Reader σ :=
  inRounds fun rounds => membersLoop member rounds true s

/-- Reads a whole document: nothing but blanks may stand behind what the reader takes. -/
def run (r : Reader α) (t : Text) : Except Fault α :=
  match r t with
  | .error f => .error f
  | .ok (x, rest) => if rest.all isBlank then .ok x else .error .malformed

end Reader

end EventScript.Json
