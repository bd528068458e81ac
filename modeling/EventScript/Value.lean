import EventScript.Double.Shortest

/-!
Argument values of commands and conditions.

A value may be shown under a symbolic name, possibly several times over; `Value.plain` is what
stands behind the names.
-/

namespace EventScript

/-- One argument of a command or a condition. -/
inductive Value where
  | int (n : Int)
  | float (d : Double)
  /-- A reference to a parameter of the event, by its name. -/
  | parameter (name : Text)
  /-- A value shown under a symbolic name, like a member of an enumeration. -/
  | named (name : Text) (value : Value)
  /-- The text of an expression, which is printed as it is. -/
  | expression (code : Text)
deriving DecidableEq, Repr

namespace Value

/-- The value behind the symbolic names. -/
def plain : Value → Value
  | named _ v => v.plain
  | v => v

/-- The integer behind the symbolic names, if it is one. -/
def toInt? (v : Value) : Option Int :=
  match v.plain with
  | int n => some n
  | _ => none

/-- The printed text of a value; of a named value it is the name. -/
def text : Value → Text
  | int n => Text.ofInt n
  | float d => d.text
  | parameter name => name
  | named name _ => name
  | expression code => code

end Value

end EventScript
