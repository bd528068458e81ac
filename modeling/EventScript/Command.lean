import EventScript.Value
import EventScript.Layers

/-!
Commands: a name with its arguments, and the numeric id it was read from.
-/

namespace EventScript

/-- The numeric id of a command: a bank, and an index in it. -/
structure CommandId where
  bank : Int
  index : Int
deriving DecidableEq, Hashable, Repr

namespace CommandId

/-- The printed text of an id, like `3[00]`. -/
def text (i : CommandId) : Text :=
  Text.ofInt i.bank ++ ['['] ++ Text.ofIntPadded i.index ++ [']']

/-- The name of a command that no catalog knows. -/
def unknownName (i : CommandId) : Text :=
  "Unknown".toList ++ Text.ofInt i.bank ++ Text.ofIntPadded i.index

end CommandId

/-- The printed argument list: the arguments, and the layers behind them if there are any. -/
def argumentsText (arguments : List Value) (layers : Option Layers) : Text :=
  Text.commaList (arguments.map Value.text ++ layers.toList.map Layers.text)

/-- A command with its arguments. -/
structure Command where
  /-- The id it was read from, where that is known. -/
  id : Option CommandId
  name : Text
  arguments : List Value
  layers : Option Layers
deriving DecidableEq, Repr

/-- The printed text of a command. -/
def Command.text (c : Command) : Text :=
  c.name ++ ['('] ++ argumentsText c.arguments c.layers ++ ");".toList

end EventScript
