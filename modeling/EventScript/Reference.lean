import EventScript.Statement.Labels

/-!
References of an event: jumps to labels, and reads of condition variables.

* `Event.referenceFault?`: the first reference, in the order of the visit, to what is declared or
  assigned nowhere in the event.
-/

namespace EventScript

namespace Statement

/-- The fault of a jump whose label is not among the declared ones, or that has none yet. -/
def jumpFault? (declared : List Text) (s : Statement) : Option Fault :=
  match s.target? with
  | none => none
  | some (.label name) => if declared.contains name then none else some (.unresolvedLabel name)
  | some _ => some (.transientJump s.text)

end Statement

namespace Condition

/-- The condition variable that a condition reads itself. -/
def readName? : Condition → Option Text
  | atom (.read _ _ name) _ _ => name
  | _ => none

/-- The fault of the first condition variable read that is not among the assigned ones. -/
def variableFault? (assigned : List Text) (c : Condition) : Option Fault :=
  (c.walk .forward).findSome? fun c =>
    c.readName?.bind fun name =>
      if assigned.contains name then none else some (.unassignedVariable name)

end Condition

/-- The first fault of a statement: that of its jump, or that of its condition. -/
def Statement.referenceFault? (declared assigned : List Text) (s : Statement) : Option Fault :=
  (s.jumpFault? declared).or (s.condition?.bind (Condition.variableFault? assigned))

/-- The fault of the first statement that refers to something that is not there. -/
def Event.referenceFault? (e : Event) : Option Fault :=
  (Body.walk e.body).findSome? (Statement.referenceFault? e.declaredLabels e.assignedVariables)

end EventScript
