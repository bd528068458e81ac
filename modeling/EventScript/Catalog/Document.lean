import EventScript.Catalog.Basic
import EventScript.Json.Shape

/-!
Catalog documents in JSON.

* `CatalogDocument.ofJson`: the document that a text describes, or why it describes none.
-/

namespace EventScript.CatalogDocument

open Json Json.Reader

/-- A member whose value is stored in a record. -/
def stored {α ρ : Type} (key : String) (isRequired : Bool) (read : Reader α) (store : ρ → α → ρ) :
    Member ρ :=
  ⟨key.toList, isRequired, fun r => store r <$> read⟩

/-- An argument of a command. -/
def argument : Reader ArgumentEntry :=
  record [
    stored "name" true text fun a v => { a with name := v },
    stored "type" true integer fun a v => { a with type := v },
    stored "enum_name" false (orNull text) fun a v => { a with enumeration := v },
    stored "default" false number fun a v => { a with initial := v },
    stored "min" false number fun a v => { a with least := v },
    stored "max" false number fun a v => { a with greatest := v },
    stored "increment" false number fun a v => { a with step := v },
    stored "format_string" false (orNull text) fun a v => { a with format := v },
    stored "vararg" false flag fun a v => { a with isRepeated := v }]
    ⟨[], 0, none, .zero, .zero, .zero, .zero, none, false⟩

/-- A command of a class. -/
def command : Reader CommandEntry :=
  record [
    stored "name" true text fun c v => { c with name := v },
    stored "index" true integer fun c v => { c with index := v },
    stored "args" false (list argument) fun c v => { c with arguments := v }]
    ⟨[], 0, []⟩

/-- A class of commands. -/
def commandClass : Reader ClassEntry :=
  record [
    stored "name" true text fun c v => { c with name := v },
    stored "index" true integer fun c v => { c with index := v },
    stored "instrs" false (list command) fun c v => { c with commands := v }]
    ⟨[], 0, []⟩

/-- An enumeration. -/
def enumeration : Reader Enumeration :=
  record [
    stored "name" true text fun e v => { e with name := v },
    stored "values" false (dictionary text) fun e v => { e with members := v }]
    ⟨[], []⟩

/-- A document. -/
def reader : Reader CatalogDocument :=
  record [
    stored "main_classes" false (list commandClass) fun d v => { d with classes := v },
    stored "enums" false (list enumeration) fun d v => { d with enumerations := v }]
    ⟨[], []⟩

/-- The document that a text describes. -/
def ofJson (t : Text) : Except Json.Fault CatalogDocument := reader.run t

end EventScript.CatalogDocument
