import EventScript.Event
import EventScript.Statement.Position

/-!
Edits of an event at positions in its body.

* `Event.get?`, `Event.modify`: a statement of an event looked up or changed;
* `Event.moveRemarks`: the remarks on a statement moved to another one;
* `Event.moveRemarksToEnd`: the remarks on a statement moved to the end of the event;
* `Event.drainAt`: the remarks taken out of the condition of a statement.

An edit at a position where no statement stands changes nothing.
-/

namespace EventScript.Event

/-- The statement at a position. -/
def get? (e : Event) (p : Position) : Option Statement := Body.get? e.body p

/-- The event with the statement at a position changed. -/
def modify (f : Statement → Statement) (p : Position) (e : Event) : Event :=
  { e with body := Body.modify f p e.body }

/-- The event with a statement in the place of the one at a position. -/
def set (p : Position) (s : Statement) (e : Event) : Event := e.modify (fun _ => s) p

/-- The event with a statement behind its body. -/
def push (s : Statement) (e : Event) : Event := { e with body := e.body ++ [s] }

/-- Moves the remarks on a statement to another one, neither of which contains the other. -/
def moveRemarks (source target : Position) (withConditions : Bool) (e : Event) : Event :=
  match e.get? source, e.get? target with
  | some s, some other =>
    let (s, other) := s.handOver other withConditions
    (e.set source s).set target other
  | _, _ => e

/-- Moves the remarks on a statement to the closing remarks of the event. -/
def moveRemarksToEnd (source : Position) (e : Event) : Event :=
  match e.get? source with
  | some s =>
    let (e, s) := e.takeRemarks s
    e.set source s
  | none => e

/-- Takes the remarks out of the condition of a statement; those are returned if it has one. -/
def drainAt (p : Position) (e : Event) : Event × Option (List Remark) :=
  match e.get? p with
  | some s =>
    let (drained, remarks) := s.drainCondition
    (e.set p drained, s.condition?.map fun _ => remarks)
  | none => (e, none)

end EventScript.Event
