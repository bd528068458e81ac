import EventScript.Json.Numeral
import EventScript.Json.Quoted

/-!
Readers of values of a given shape.

A value of another shape makes a document unfit, once it was read as far as it takes to know what it
is: a number or a string to its end, an array or an object not at all.

* `Json.Reader.text`, `Json.Reader.integer`, `Json.Reader.number`, `Json.Reader.flag`,
  `Json.Reader.orNull`, `Json.Reader.list`, `Json.Reader.dictionary`: values of one shape each;
* `Json.Reader.record`: an object with known members, or an array of them;
* `Json.Reader.anything`: a value that nobody looks at.
-/

namespace EventScript.Json.Reader

variable {α ρ : Type}

/-- A value of a shape that is not asked for. -/
def unexpected : Reader α := do
  match ← peek with
  | some 'n' =>
    skip
    word "ull".toList
  | some 't' =>
    skip
    word "rue".toList
  | some 'f' =>
    skip
    word "alse".toList
  | some '"' =>
    skip
    let _ ← quoted
  | some '[' => pure ()
  | some '{' => pure ()
  | some c => if c = '-' ∨ c.isDigit then let _ ← numeral else refuse .malformed
  | none => refuse .malformed
  refuse .unfit

/-- A value, read by its first character. -/
def value (read : Char → Reader α) : Reader α := do
  match ← token with
  | none => refuse .endsEarly
  | some c => read c

/-! ### Single values -/

/-- A string. -/
def text : Reader Text := value fun c =>
  if c = '"' then do
    skip
    quoted
  else unexpected

/-- A number as an integer of 64 bits with sign. -/
def integer : Reader Int := value fun c =>
  if c = '-' ∨ c.isDigit then do
    match (← numeral).toInt? with
    | some n => pure n
    | none => refuse .unfit
  else unexpected

/-- A number as a floating-point number. -/
def number : Reader Double := value fun c =>
  if c = '-' ∨ c.isDigit then do
    pure (← numeral).toDouble
  else unexpected

/-- One of the two truth values. -/
def flag : Reader Bool := value fun c =>
  match c with
  | 't' => do
    skip
    word "rue".toList
    pure true
  | 'f' => do
    skip
    word "alse".toList
    pure false
  | _ => unexpected

/-- A value that may be missing. -/
def orNull (read : Reader α) : Reader (Option α) := do
  match ← token with
  | some 'n' =>
    skip
    word "ull".toList
    pure none
  | _ => some <$> read

/-! ### Values nobody looks at -/

/-- Passes a value nested less deep than a text is long, as every value in the text is. -/
def anythingLoop : Text → Reader Unit
  | [] => refuse .endsEarly
  | _ :: depth => value fun c =>
    match c with
    | 'n' => do
      skip
      word "ull".toList
    | 't' => do
      skip
      word "rue".toList
    | 'f' => do
      skip
      word "alse".toList
    | '"' => do
      skip
      skipQuoted
    | '[' => do
      skip
      let _ ← elements (anythingLoop depth)
    | '{' => do
      skip
      members (fun _ => do
        skipQuoted
        colon
        anythingLoop depth) ()
    | c => if c = '-' ∨ c.isDigit then skipNumeral else refuse .malformed

/-- Passes a value of any shape. -/
def anything : Reader Unit := inRounds anythingLoop

/-! ### Arrays and objects -/

/-- An array of values of one shape. -/
def list (item : Reader α) : Reader (List α) := value fun c =>
  if c = '[' then do
    skip
    elements item
  else unexpected

/-- The entries with one more, which takes the place of an entry with its key. -/
def put (key : Text) (x : α) (entries : List (Text × α)) : List (Text × α) :=
  entries.filter (fun e => e.1 != key) ++ [(key, x)]

/-- An object whose keys are not known, as its entries. Of several with one key the last counts. -/
def dictionary (item : Reader α) : Reader (List (Text × α)) := value fun c =>
  if c = '{' then do
    skip
    members (fun entries => do
      let key ← quoted
      colon
      let x ← item
      pure (put key x entries)) []
  else unexpected

/-- A member that a record may have: its key, whether it must be there, and the reader of its value
into a record. -/
structure Member (ρ : Type) where
  key : Text
  isRequired : Bool
  read : ρ → Reader ρ

/-- One member of a record. A known key may come once only; what stands under an unknown one is
passed. -/
def member (known : List (Member ρ)) (state : List Text × ρ) : Reader (List Text × ρ) := do
  let (seen, r) := state
  let key ← quoted
  match known.find? fun m => m.key == key with
  | none =>
    colon
    anything
    pure (seen, r)
  | some m =>
    if seen.contains key then refuse .unfit
    colon
    let r ← m.read r
    pure (key :: seen, r)

/-- The members of a record in the order in which they are known, as the elements of an array. Those
behind the last element are not there. -/
def membersInOrder : List (Member ρ) → Bool → ρ → Reader ρ
  | [], _, r => pure r
  | m :: known, isFirst, r => do
    if ← hasElement isFirst then membersInOrder known false (← m.read r)
    else if m.isRequired then refuse .unfit
    else membersInOrder known isFirst r

/-- An object as a record, or an array of the members in their order. Members that are not there
keep their value in `initial`, except for required ones, without which the document is unfit. -/
def record (known : List (Member ρ)) (initial : ρ) : Reader ρ := value fun c =>
  if c = '{' then do
    skip
    let (seen, r) ← members (member known) ([], initial)
    if known.all fun m => !m.isRequired || seen.contains m.key then pure r else refuse .unfit
  else if c = '[' then do
    skip
    let r ← membersInOrder known true initial
    arrayEnd
    pure r
  else unexpected

end EventScript.Json.Reader
