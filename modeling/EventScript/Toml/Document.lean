import EventScript.Toml.Quoted

/-!
TOML documents.

* `Toml.Reader.item`: a value, nested no deeper than `Toml.Reader.deepest`;
* `Toml.parse?`: the entries of a document.
-/

namespace EventScript.Toml

namespace Reader

/-! ### Values -/

/-- Whether a character may stand in a value without quotes. -/
def isScalar (c : Char) : Bool :=
  c.isAlphanum || c == '_' || c == '-' || c == '+' || c == '.' || c == ':'

/-- The text of a value without quotes. A time may stand behind a date and one blank. -/
def scalarText : Reader Text := do
  let t ← takeWhile isScalar
  if afterDate? t = some [] then
    let behind ← fun s => some (s.take 2, s)
    match behind with
    | [' ', c] =>
      if c.isDigit then
        expect ' '
        let time ← takeWhile isScalar
        pure (t ++ ' ' :: time)
      else pure t
    | _ => pure t
  else pure t

/-- A value that is neither an array nor a table. -/
def plainItem : Reader Item := do
  let c ← peek
  if c = some '"' ∨ c = some '\'' then Item.string <$> string
  else
    match scalar? (← scalarText) with
    | some x => pure x
    | none => refuse

/-- The items of an array up to its closing bracket, which is taken too. -/
def itemsLoop (item : Reader Item) : Text → Reader (List Item)
  | [] => refuse
  | _ :: rounds => do
    gap
    if (← peek) = some ']' then
      expect ']'
      pure []
    else
      let x ← item
      gap
      if (← peek) = some ',' then
        expect ','
        let xs ← itemsLoop item rounds
        pure (x :: xs)
      else
        expect ']'
        pure [x]

/-- The entries of a table between braces up to the closing one, which is taken too. -/
def entriesLoop (item : Reader Item) : Text → Entries → Reader Entries
  | [], _ => refuse
  | _ :: rounds, entries => do
    gap
    if (← peek) = some '}' then
      expect '}'
      pure entries
    else
      let (path, key) ← key
      gap
      expect '='
      gap
      let x ← item
      match assign path key x .braces entries with
      | none => refuse
      | some (_, entries) =>
        gap
        if (← peek) = some ',' then
          expect ','
          entriesLoop item rounds entries
        else
          expect '}'
          pure entries

/-- A value, with arrays and tables between braces nested at most `depth` deep. -/
def itemLoop : Nat → Reader Item
  | 0 => plainItem
  | depth + 1 => do
    match ← peek with
    | some '[' =>
      expect '['
      Item.array <$> inRounds (itemsLoop (itemLoop depth))
    | some '{' =>
      expect '{'
      Item.table .braces <$> inRounds fun rounds => entriesLoop (itemLoop depth) rounds []
    | _ => plainItem

/-- How deep arrays and tables between braces may be nested. -/
def deepest : Nat := 80

/-- A value. -/
def item : Reader Item := itemLoop deepest

/-! ### Documents -/

/-- What the lines read so far have built, and the table that the lines go on to fill. -/
structure Progress where
  document : Entries
  table : List Text

/-- A change to the document that may be refused. -/
def apply (change : Option Entries) : Reader Entries := fun t => change.map fun es => (es, t)

/-- A header, behind its first bracket. -/
def header (p : Progress) : Reader Progress := do
  if (← peek) = some '[' then
    expect '['
    let (path, key) ← key
    expect ']'
    expect ']'
    pure ⟨← apply (openElement path key p.document), path ++ [key]⟩
  else
    let (path, key) ← key
    expect ']'
    pure ⟨← apply (openTable path key p.document), path ++ [key]⟩

/-- A line with a key and a value. -/
def entry (p : Progress) : Reader Progress := do
  let (path, key) ← key
  expect '='
  blanks
  let x ← item
  pure { p with document := ← apply (assignUnder p.table path key x p.document) }

/-- One line. -/
def line (p : Progress) : Reader Progress := do
  blanks
  let c ← peek
  let p ←
    if c = none ∨ c = some '\n' ∨ c = some '\r' ∨ c = some '#' then pure p
    else if c = some '[' then do
      expect '['
      header p
    else entry p
  lineRest
  pure p

/-- The lines up to the end of the text. -/
def lines : Text → Progress → Reader Progress
  | [], p => pure p
  | _ :: rounds, p => do
    if (← peek).isNone then pure p
    else
      let p ← line p
      lines rounds p

end Reader

/-- The entries of the document that a text is. A byte order mark in front of it is passed. -/
def parse? (t : Text) : Option Entries :=
  let t := if t.head? = some '\uFEFF' then t.tail else t
  ((Reader.inRounds fun rounds => Reader.lines rounds ⟨[], []⟩) t).map fun r => r.1.document

end EventScript.Toml
