import EventScript.Fault
import EventScript.Settings
import EventScript.Toml.Document

/-!
Settings in TOML.

* `Settings.ofToml`: the settings that a text describes. A setting that is not given keeps its
  default value, and a key that is not known is passed.
-/

namespace EventScript

open Toml

/-- A natural number of 64 bits. -/
def Settings.word? : Item → Option Nat
  | .integer n => if 0 ≤ n ∧ n.toNat < Nat.pow 2 64 then some n.toNat else none
  | _ => none

/-- A truth value. -/
def Settings.flag? : Item → Option Bool
  | .flag b => some b
  | _ => none

namespace LabelNaming

/-- The id of an event: an integer of 64 bits with sign. -/
def id? : Item → Option Int
  | .integer n =>
    if -(Nat.pow 2 63 : Int) ≤ n ∧ n < (Nat.pow 2 63 : Int) then some n else none
  | _ => none

/-- The choice that needs nothing further, by its name. -/
def plain? (name : Text) : Option LabelNaming :=
  if name = "never".toList then some never
  else if name = "always".toList then some always
  else none

/-- Whether a value holds nothing. -/
def isHollow : Item → Bool
  | .array items => items.isEmpty
  | .table _ entries => entries.isEmpty
  | _ => false

/-- A choice: a name, or a table with the name as its only key. -/
def ofItem? : Item → Option LabelNaming
  | .string name => plain? name
  | .table _ [(name, v)] =>
    if name = "events".toList then
      match v with
      | .array items => events <$> items.mapM id?
      | _ => none
    else if isHollow v then plain? name
    else none
  | _ => none

end LabelNaming

namespace Settings

/-- The value under a key, or a default if there is none. -/
def entryOr {α : Type} (entries : Entries) (key : String) (read : Item → Option α) (default : α) :
    Option α :=
  match entries.lookup key.toList with
  | none => some default
  | some v => read v

/-- The settings that the entries of a document describe. -/
def ofEntries? (entries : Entries) : Option Settings := do
  let initial : Settings := {}
  pure {
    indentWidth := ← entryOr entries "indent_width" word? initial.indentWidth
    columnLimit := ← entryOr entries "column_limit" word? initial.columnLimit
    labelNaming := ← entryOr entries "label_disambiguation" LabelNaming.ofItem? initial.labelNaming
    verifiesReferences := ← entryOr entries "verify_references" flag? initial.verifiesReferences }

/-- The settings that a text describes. -/
def ofToml (t : Text) : Except FormatFault Settings :=
  match (parse? t).bind ofEntries? with
  | some k => .ok k
  | none => .error .settings

end Settings

end EventScript
