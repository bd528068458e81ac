import EventScript.Toml.Reader

/-!
Strings and keys of TOML.

* `Toml.Reader.string`: a string in quotes of one of the two kinds, on one line or on several;
* `Toml.Reader.key`: a dotted key.
-/

namespace EventScript.Toml.Reader

/-! ### Characters behind a backslash -/

/-- The character of a number of hexadecimal digits. -/
def codePoint (count : Nat) : Reader Char := fun t =>
  let n := (t.take count).foldl (fun n c => 16 * n + digitValue c) 0
  if (t.take count).length = count ∧ (t.take count).all (fun c => digitValue c < 16) ∧
      n.isValidChar then
    some (Char.ofNat n, t.drop count)
  else none

/-- The character written behind a backslash. -/
def escaped : Reader Char := do
  match ← next with
  | 'b' => pure '\x08'
  | 't' => pure '\t'
  | 'n' => pure '\n'
  | 'f' => pure '\x0c'
  | 'r' => pure '\r'
  | 'e' => pure '\x1b'
  | '"' => pure '"'
  | '\\' => pure '\\'
  | 'x' => codePoint 2
  | 'u' => codePoint 4
  | 'U' => codePoint 8
  | _ => refuse

/-! ### Strings on one line -/

/-- The characters of a string up to its closing quote, which is taken too. -/
def quotedLoop : Text → Reader Text
  | [] => refuse
  | _ :: rounds => do
    match ← next with
    | '"' => pure []
    | '\\' =>
      let c ← escaped
      let rest ← quotedLoop rounds
      pure (c :: rest)
    | c =>
      if !isPrintable c then refuse
      let rest ← quotedLoop rounds
      pure (c :: rest)

/-- A string in double quotes. -/
def quoted : Reader Text := do
  expect '"'
  inRounds quotedLoop

/-- A string in single quotes, in which nothing is escaped. -/
def literal : Reader Text := do
  expect '\''
  let t ← takeWhile fun c => c != '\''
  expect '\''
  if t.all isPrintable then pure t else refuse

/-! ### Strings on several lines -/

/-- Whether a backslash was put at the end of a line, behind which only blanks stand. -/
def endsLine (t : Text) : Bool :=
  match t.dropWhile isBlank with
  | '\n' :: _ => true
  | '\r' :: '\n' :: _ => true
  | _ => false

/-- Passes blanks and ends of lines, the rest of one line and empty lines behind it. -/
def continuation : Text → Reader Unit
  | [] => pure ()
  | _ :: rounds => do
    blanks
    if ← lineEnd? then continuation rounds

/-- The quotes that a string ends with in front of the three that close it, which are taken too;
there may be two of them. It is `none` if it does not end here. -/
def closingQuotes (quote : Char) : Reader (Option Text) := do
  if ← takes (List.replicate 3 quote) then
    if ← takes [quote, quote] then pure (some [quote, quote])
    else if ← takes [quote] then pure (some [quote])
    else pure (some [])
  else pure none

/-- The characters of a string on several lines up to the three closing quotes, which are taken
too. -/
def linesLoop (quote : Char) (hasEscapes : Bool) : Text → Reader Text
  | [] => refuse
  | _ :: rounds => do
    match ← closingQuotes quote with
    | some quotes => pure quotes
    | none =>
      if ← lineEnd? then
        let rest ← linesLoop quote hasEscapes rounds
        pure ('\n' :: rest)
      else
        let c ← next
        if !isPrintable c then refuse
        if c = '\\' ∧ hasEscapes then
          if ← (fun t => some (endsLine t, t)) then
            continuation rounds
            linesLoop quote hasEscapes rounds
          else
            let c ← escaped
            let rest ← linesLoop quote hasEscapes rounds
            pure (c :: rest)
        else
          let rest ← linesLoop quote hasEscapes rounds
          pure (c :: rest)

/-- A string whose three opening quotes were taken. The end of a line right behind them does not
belong to it. -/
def textBlock (quote : Char) (hasEscapes : Bool) : Reader Text := do
  let _ ← lineEnd?
  inRounds (linesLoop quote hasEscapes)

/-- A string. -/
def string : Reader Text := do
  if ← takes (List.replicate 3 '"') then textBlock '"' true
  else if ← takes (List.replicate 3 '\'') then textBlock '\'' false
  else if (← peek) = some '"' then quoted
  else literal

/-! ### Keys -/

/-- Whether a character may stand in a key without quotes. -/
def isBare (c : Char) : Bool := c.isAlphanum || c == '_' || c == '-'

/-- One part of a key. -/
def keyPart : Reader Text := do
  match ← peek with
  | some '"' => quoted
  | some '\'' => literal
  | _ =>
    let t ← takeWhile isBare
    if t.isEmpty then refuse else pure t

/-- A key of at most `parts` parts: those that lead to the last part, and the last. -/
def keyLoop : Nat → Reader (List Text × Text)
  | 0 => refuse
  | parts + 1 => do
    blanks
    let part ← keyPart
    blanks
    if (← peek) = some '.' then
      expect '.'
      let (path, key) ← keyLoop parts
      pure (part :: path, key)
    else pure ([], part)

/-- The greatest number of parts that a key may have. -/
def longestKey : Nat := 80

/-- A dotted key, with the blanks around it: the parts that lead to the last one, and the last. -/
def key : Reader (List Text × Text) := keyLoop longestKey

end EventScript.Toml.Reader
