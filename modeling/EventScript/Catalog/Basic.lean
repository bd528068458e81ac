import Std.Data.HashMap
import EventScript.Command

/-!
Catalogs: what is known about commands and their arguments.

A document lists the commands by classes, and the enumerations; a catalog is a document with an
index of both. Of several entries under one id or name the last counts.

* `Catalog.ofDocument`: the catalog of a document;
* `Catalog.command?`, `Catalog.enumeration?`: the entry of an id or a name;
* `Catalog.build`: the command of an id, its values shown under the names of enumeration members.
-/

namespace EventScript

/-- What is known about an argument of a command. -/
structure ArgumentEntry where
  name : Text
  /-- The number of the type of its value. -/
  type : Int
  enumeration : Option Text
  initial : Double
  least : Double
  greatest : Double
  step : Double
  format : Option Text
  /-- Whether a last argument stands for any number of them. -/
  isRepeated : Bool
deriving DecidableEq, Repr

/-- What is known about a command. -/
structure CommandEntry where
  name : Text
  index : Int
  arguments : List ArgumentEntry
deriving DecidableEq, Repr

/-- A class of commands, which share a bank. -/
structure ClassEntry where
  name : Text
  index : Int
  commands : List CommandEntry
deriving DecidableEq, Repr

/-- An enumeration: the names of its members by the decimal text of their values. -/
structure Enumeration where
  name : Text
  members : List (Text × Text)
deriving DecidableEq, Repr

namespace CommandEntry

/-- The entry of the argument at a position. Behind the last argument it is the last one, if that
may be repeated. -/
def argument? (c : CommandEntry) (position : Nat) : Option ArgumentEntry :=
  (c.arguments[position]?).or
    (c.arguments.getLast?.filter fun last =>
      last.isRepeated && decide (c.arguments.length ≤ position))

end CommandEntry

namespace Enumeration

/-- A name without its blanks. -/
def compact (name : Text) : Text := name.filter (· != ' ')

/-- The name under which a value is shown: that of the enumeration, and that of the member. -/
def memberName? (e : Enumeration) (value : Int) : Option Text :=
  (e.members.lookup (Text.ofInt value)).map fun member => compact e.name ++ ['.'] ++ compact member

end Enumeration

/-- The entries of a catalog as they are listed. -/
structure CatalogDocument where
  classes : List ClassEntry
  enumerations : List Enumeration
deriving DecidableEq, Repr

namespace CatalogDocument

/-- The commands of all classes with their ids, in the order in which they are listed. -/
def commands (d : CatalogDocument) : List (CommandId × CommandEntry) :=
  d.classes.flatMap fun c => c.commands.map fun command => (⟨c.index, command.index⟩, command)

end CatalogDocument

/-- A document with an index of its commands by their ids, and of its enumerations by their
names. -/
structure Catalog where
  document : CatalogDocument
  commandIndex : Std.HashMap CommandId CommandEntry
  enumerationIndex : Std.HashMap String Enumeration

namespace Catalog

/-- The catalog of a document. -/
def ofDocument (d : CatalogDocument) : Catalog where
  document := d
  commandIndex := .ofList d.commands
  enumerationIndex := .ofList (d.enumerations.map fun e => (String.ofList e.name, e))

/-- The entry of a command. -/
def command? (k : Catalog) (id : CommandId) : Option CommandEntry := k.commandIndex[id]?

/-- The entry of an enumeration. -/
def enumeration? (k : Catalog) (name : Text) : Option Enumeration :=
  k.enumerationIndex[String.ofList name]?

/-- The name under which the value of an argument is shown, if it is an integer that is a member of
the enumeration of the argument. -/
def memberName? (k : Catalog) (entry : ArgumentEntry) (v : Value) : Option Text := do
  let enumeration ← k.enumeration? (← entry.enumeration)
  enumeration.memberName? (← v.toInt?)

/-- The value of an argument, shown under a name if it has one. -/
def named (k : Catalog) (entry : ArgumentEntry) (v : Value) : Value :=
  match k.memberName? entry v with
  | some name => .named name v
  | none => v

/-- The command of an id with its arguments. A command that is not in the catalog is named after its
id, and an argument without an entry is kept as it is. -/
def build (k : Catalog) (id : CommandId) (arguments : List Value) (layers : Option Layers) :
    Command :=
  match k.command? id with
  | none => ⟨some id, id.unknownName, arguments, layers⟩
  | some entry =>
    let shown (position : Nat) (v : Value) : Value :=
      match entry.argument? position with
      | some argument => k.named argument v
      | none => v
    ⟨some id, entry.name, arguments.mapIdx shown, layers⟩

end Catalog

end EventScript
