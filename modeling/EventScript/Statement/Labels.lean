import EventScript.Event
import EventScript.Statement.Walk

/-!
The labels and condition variables of statements: which a statement declares, and which it refers
to.

* `Statement.declaredLabels`, `Event.declaredLabels`: the labels a jump may go to;
* `Event.usedLabels`: the names a new label must avoid;
* `Event.assignedVariables`: the condition variables a condition may read;
* `Statement.bearLabel`: a label for a statement, a new one if it has none.
-/

namespace EventScript

namespace Action

/-- The label that an action is the place of. -/
def ownLabel? : Action → Option Text
  | label number => some (Label.name number)
  | fillSkip name => some name
  | _ => none

/-- The condition variable that an action assigns. -/
def assignedVariable? : Action → Option Text
  | assign _ variableName _ _ => variableName
  | _ => none

end Action

namespace Statement

/-- The labels whose place a statement is: those printed in front of it, and its own. -/
def declaredLabels (s : Statement) : List Text :=
  s.tags.labels ++ (s.action?.bind Action.ownLabel?).toList

/-- The label a statement jumps to. -/
def jumpLabel? (s : Statement) : Option Text := s.action?.bind Action.jumpLabel?

/-- The condition variable a statement assigns. -/
def assignedVariable? (s : Statement) : Option Text := s.action?.bind Action.assignedVariable?

/-- The target of a statement that jumps. -/
def target? : Statement → Option Target
  | simple _ (.jump target _) => some target
  | _ => none

/-- A jump with its target replaced by a label. -/
def jumpTo (name : Text) : Statement → Statement
  | simple tags (.jump _ c) => simple tags (.jump (.label name) c)
  | s => s

/-- A statement with the first label printed in front of it, and the names then in use. One that
has no label is given a new one, after its wish or else after `fallback`. -/
def bearLabel (fallback : Text) (s : Statement) (used : List Text) :
    Statement × Text × List Text :=
  match s.tags.labels with
  | name :: _ => (s, name, used)
  | [] =>
    let name := Label.fresh used (s.tags.labelHint.getD fallback)
    (s.mapTags fun tags => { tags with labels := [name] }, name, name :: used)

end Statement

namespace Event

/-- The labels declared in an event. -/
def declaredLabels (e : Event) : List Text := (Body.walk e.body).flatMap Statement.declaredLabels

/-- The labels declared in an event or jumped to by it. -/
def usedLabels (e : Event) : List Text :=
  (Body.walk e.body).flatMap fun s => s.declaredLabels ++ s.jumpLabel?.toList

/-- The condition variables assigned somewhere in an event. -/
def assignedVariables (e : Event) : List Text :=
  (Body.walk e.body).filterMap Statement.assignedVariable?

end Event

end EventScript
