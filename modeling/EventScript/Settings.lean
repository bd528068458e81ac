import EventScript.Event

/-!
Settings of the printer.

* `Settings`: how wide lines may be, how far they are indented, and what is checked;
* `LabelNaming`: in which events repeated label declarations are told apart.
-/

namespace EventScript

/-- In which events a label declared again is given a name of its own. -/
inductive LabelNaming where
  | never
  | always
  | events (ids : List Int)
deriving DecidableEq, Repr

namespace LabelNaming

/-- The events whose labels stand in nested scopes and may not be declared twice. -/
def nestedScopes : List Int := [11052860, 1600, 1601]

/-- Whether repeated labels of an event are told apart. An id that is not known yet is none of the
listed ones. -/
def appliesTo (naming : LabelNaming) (id : EventId) : Bool :=
  match naming with
  | never => false
  | always => true
  | events ids =>
    match id.toInt? with
    | some n => ids.contains n
    | none => false

end LabelNaming

/-- The settings of the printer. -/
structure Settings where
  /-- The blanks of one step of indent. -/
  indentWidth : Nat := 4
  /-- The greatest width of a line, its indent included, that is not broken if it can be. -/
  columnLimit : Nat := 100
  labelNaming : LabelNaming := .events LabelNaming.nestedScopes
  /-- Whether an event with a dangling reference is refused. -/
  verifiesReferences : Bool := false
deriving DecidableEq, Repr

end EventScript
