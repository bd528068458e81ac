import EventScript.Toml.Scalar

/-!
Reading TOML from left to right.

* `Toml.Reader`: readers of the front of a text, with no account of what went wrong;
* `Toml.Reader.gap`, `Toml.Reader.lineRest`: what may stand between values, and behind them.
-/

namespace EventScript.Toml

/-- A reader of a value from the front of a text. -/
abbrev Reader (α : Type) := StateT Text Option α

namespace Reader

variable {α : Type}

/-- Refuses the document. -/
def refuse : Reader α := fun _ => none

/-- The next character, which is left where it is. -/
def peek : Reader (Option Char) := fun t => some (t.head?, t)

/-- Takes the next character, which must be there. -/
def next : Reader Char := fun t =>
  match t with
  | [] => none
  | c :: rest => some (c, rest)

/-- Takes a character that must stand here. -/
def expect (c : Char) : Reader Unit := do
  if (← next) ≠ c then refuse

/-- Takes a text off the front if it stands there, and tells whether it did. -/
def takes (t : Text) : Reader Bool := fun s =>
  if t.isPrefixOf s then some (true, s.drop t.length) else some (false, s)

/-- Takes the characters of a class off the front of the text. -/
def takeWhile (p : Char → Bool) : Reader Text := fun t => some (t.takeWhile p, t.dropWhile p)

/-- Runs a loop whose rounds are counted off a text: the one that is left, and a character more. A
loop that takes a character in every round is through before that text has run out. -/
def inRounds (loop : Text → Reader α) : Reader α := fun t => loop (' ' :: t) t

/-! ### Between the values -/

/-- Whether a character may stand between the parts of a line. -/
def isBlank (c : Char) : Bool := c == ' ' || c == '\t'

/-- Passes blanks on a line. -/
def blanks : Reader Unit := do
  let _ ← takeWhile isBlank

/-- Whether a character may stand in a comment or a string. -/
def isPrintable (c : Char) : Bool := c == '\t' || (decide (' ' ≤ c) && c != '\x7f')

/-- Passes a comment, if one starts here. -/
def comment : Reader Unit := do
  if (← peek) = some '#' then
    let t ← takeWhile fun c => c != '\n' && c != '\r'
    if !t.all isPrintable then refuse

/-- Passes the end of a line, if there is one here, and tells whether there was. -/
def lineEnd? : Reader Bool := do
  match ← peek with
  | some '\n' =>
    expect '\n'
    pure true
  | some '\r' =>
    expect '\r'
    expect '\n'
    pure true
  | _ => pure false

/-- Passes the rest of a line behind a value or a header. -/
def lineRest : Reader Unit := do
  blanks
  comment
  if !(← lineEnd?) ∧ (← peek).isSome then refuse

/-- Passes blanks, comments and ends of lines between the parts of a value. -/
def gapLoop : Text → Reader Unit
  | [] => pure ()
  | _ :: rounds => do
    blanks
    comment
    if ← lineEnd? then gapLoop rounds

/-- Passes blanks, comments and ends of lines between the parts of a value. -/
def gap : Reader Unit := inRounds gapLoop

end Reader

end EventScript.Toml
