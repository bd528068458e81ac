import EventScript.Text

/-!
Tables of a TOML document, and how its lines build them up.

A table may be opened once by a header of its own. Dotted keys extend any table that no header has
opened, and a table that they have extended can no longer be opened by a header; what stands between
braces is never extended.

* `Toml.Item`: values, tables and lists of tables;
* `Toml.assign`: a table with a value stored under a dotted key;
* `Toml.openTable`, `Toml.openElement`: a document with a table opened by a header.
-/

namespace EventScript.Toml

/-- How a table came to be. -/
inductive Origin where
  /-- By a header of its own; the document itself counts as such a table. -/
  | header
  /-- On the way of a header to a table further in. -/
  | passed
  /-- On the way of a dotted key, which it may have been passed by before. -/
  | dotted
  /-- Between braces. -/
  | braces
deriving DecidableEq, Repr

/-- A value of a document. Of floating-point numbers, dates and times only the kind is kept. -/
inductive Item where
  | integer (n : Int)
  | float
  | moment
  | flag (b : Bool)
  | string (t : Text)
  | array (items : List Item)
  | table (origin : Origin) (entries : List (Text × Item))
  /-- The tables opened by headers in double brackets, the last one last. -/
  | tables (all : List Item)

/-- The entries of a table, each key once. -/
abbrev Entries := List (Text × Item)

/-- The entries with another value under a key that is among them. -/
def replace (key : Text) (v : Item) (entries : Entries) : Entries :=
  entries.map fun e => if e.1 == key then (key, v) else e

/-- Changes the table at the end of a path, which starts at a table. Tables that are not there are
made on the way, and of a list of tables the last one is meant. A dotted key leaves its mark on the
tables that it passes. -/
def changeAt (byDots : Bool) (change : Origin → Entries → Option (Origin × Entries)) :
    List Text → Origin → Entries → Option (Origin × Entries)
  | [], origin, entries => change origin entries
  | key :: path, origin, entries =>
    match entries.lookup key with
    | none => do
      let (inner, found) ← changeAt byDots change path (if byDots then .dotted else .passed) []
      some (origin, entries ++ [(key, .table inner found)])
    | some (.table inner found) =>
      if inner = .braces ∨ (byDots ∧ inner = .header) then none
      else do
        let (inner, found) ←
          changeAt byDots change path (if byDots then .dotted else inner) found
        some (origin, replace key (.table inner found) entries)
    | some (.tables all) =>
      match all.getLast? with
      | some (.table inner found) => do
        let (inner, found) ← changeAt byDots change path inner found
        some (origin, replace key (.tables (all.dropLast ++ [.table inner found])) entries)
      | _ => none
    | some _ => none

/-- A table with a value stored under a dotted key. The last part of the key must be new, and what
it joins must be a table of dotted keys, which an element of a list of tables is not. -/
def assign (path : List Text) (key : Text) (v : Item) (origin : Origin) (entries : Entries) :
    Option (Origin × Entries) :=
  changeAt true (fun origin entries =>
    if (!path.isEmpty && origin != .dotted) || (entries.lookup key).isSome then none
    else some (origin, entries ++ [(key, v)])) path origin entries

/-- A document with a table opened by a header. It must be new, or have been passed only. -/
def openTable (path : List Text) (key : Text) (document : Entries) : Option Entries :=
  (changeAt false (fun origin entries =>
    match entries.lookup key with
    | none => some (origin, entries ++ [(key, .table .header [])])
    | some (.table .passed found) => some (origin, replace key (.table .header found) entries)
    | some _ => none) path .header document).map Prod.snd

/-- A document with a table added to a list of tables by a header in double brackets. -/
def openElement (path : List Text) (key : Text) (document : Entries) : Option Entries :=
  (changeAt false (fun origin entries =>
    match entries.lookup key with
    | none => some (origin, entries ++ [(key, .tables [.table .header []])])
    | some (.tables all) =>
      some (origin, replace key (.tables (all ++ [.table .header []])) entries)
    | some _ => none) path .header document).map Prod.snd

/-- A document with a value stored under a dotted key of the table that a header opened last. -/
def assignUnder (table path : List Text) (key : Text) (v : Item) (document : Entries) :
    Option Entries :=
  (changeAt false (assign path key v) table .header document).map Prod.snd

end EventScript.Toml
