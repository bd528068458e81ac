import EventScript.Json.Reader

/-!
Strings of JSON.

* `Json.Reader.quoted`: the text of a string whose opening quote was taken;
* `Json.Reader.skipQuoted`: the same, where nobody looks at the text.
-/

namespace EventScript.Json.Reader

/-- The value of a hexadecimal digit. -/
def hexDigit? (c : Char) : Option Nat :=
  if c.isDigit then some (c.toNat - '0'.toNat)
  else if 'a' ≤ c ∧ c ≤ 'f' then some (c.toNat - 'a'.toNat + 10)
  else if 'A' ≤ c ∧ c ≤ 'F' then some (c.toNat - 'A'.toNat + 10)
  else none

/-- The number of four hexadecimal digits. The text counts as ended if fewer than four bytes of it
are left, whatever they are. -/
def hexCode : Reader Nat := fun t =>
  if (t.take 4).foldl (fun n c => n + c.utf8Size) 0 < 4 then .error .endsEarly
  else
    match (t.take 4).mapM hexDigit? with
    | some digits => .ok (digits.foldl (fun n d => 16 * n + d) 0, t.drop 4)
    | none => .error .malformed

/-- A character that must be there, inside a string. -/
def inside : Reader Char := do
  match ← peek with
  | none => refuse .endsEarly
  | some c =>
    skip
    pure c

/-- Whether a code unit is the first of a pair. -/
def isLeading (n : Nat) : Bool := decide (0xD800 ≤ n ∧ n < 0xDC00)

/-- Whether a code unit is the second of a pair. -/
def isTrailing (n : Nat) : Bool := decide (0xDC00 ≤ n ∧ n < 0xE000)

/-- The character written by one code unit, or by a pair of them; neither part of a pair may stand
alone. -/
def codeUnits : Reader Char := do
  let first ← hexCode
  if isTrailing first then refuse .malformed
  if isLeading first then
    if (← inside) ≠ '\\' then refuse .malformed
    if (← inside) ≠ 'u' then refuse .malformed
    let second ← hexCode
    if !isTrailing second then refuse .malformed
    pure (Char.ofNat (0x10000 + (first - 0xD800) * 0x400 + (second - 0xDC00)))
  else pure (Char.ofNat first)

/-- The character written behind a backslash. -/
def escaped (unicode : Reader Char) : Reader Char := do
  match ← inside with
  | '"' => pure '"'
  | '\\' => pure '\\'
  | '/' => pure '/'
  | 'b' => pure '\x08'
  | 'f' => pure '\x0c'
  | 'n' => pure '\n'
  | 'r' => pure '\r'
  | 't' => pure '\t'
  | 'u' => unicode
  | _ => refuse .malformed

/-- The characters of a string up to its closing quote, which is taken too. Control characters must
be escaped. -/
def quotedLoop (unicode : Reader Char) : Text → Reader Text
  | [] => refuse .endsEarly
  | _ :: rounds => do
    match ← inside with
    | '"' => pure []
    | '\\' =>
      let c ← escaped unicode
      let rest ← quotedLoop unicode rounds
      pure (c :: rest)
    | c =>
      if c < ' ' then refuse .malformed
      let rest ← quotedLoop unicode rounds
      pure (c :: rest)

/-- The text of a string whose opening quote was taken. -/
def quoted : Reader Text := inRounds (quotedLoop codeUnits)

/-- Passes a string whose opening quote was taken. Code units need not be paired in it. -/
def skipQuoted : Reader Unit := do
  let _ ← inRounds (quotedLoop (Char.ofNat <$> hexCode))

end EventScript.Json.Reader
