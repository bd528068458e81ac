import EventScript.Statement.Labels

/-!
Jumps to nodes become jumps to labels.

Every statement that a jump knows by its node bears a label afterwards. All targets are looked up
before anything is changed, so an event with a jump to no statement is left as it was.

* `Event.missingNode?`: the first node jumped to that no statement is known by;
* `Event.labelNodes`: the event with all jumps to nodes replaced, or its fault.
-/

namespace EventScript

/-- What a change to an event left behind: the event, and the fault that stopped the change. -/
structure Outcome where
  event : Event
  fault : Option Fault

namespace Statement

/-- The node a statement jumps to. -/
def jumpNode? (s : Statement) : Option Nat :=
  match s.target? with
  | some (.node node) => some node
  | _ => none

end Statement

/-- The labels given out to nodes so far, and the names in use. -/
structure NodeLabels where
  names : List (Nat × Text)
  used : List Text

namespace NodeLabels

/-- Gives a label to a statement if jumps go to its node and the node has none yet. -/
def visit (targets : List Nat) (s : Statement) (labels : NodeLabels) : Statement × NodeLabels :=
  match s.tags.node with
  | none => (s, labels)
  | some node =>
    if targets.contains node && (labels.names.lookup node).isNone then
      let (s, name, used) := s.bearLabel "label".toList labels.used
      (s, ⟨(node, name) :: labels.names, used⟩)
    else (s, labels)

/-- The statement with a jump to a node replaced by a jump to the label of that node. -/
def redirect (labels : NodeLabels) (s : Statement) : Statement :=
  match s.jumpNode?.bind fun node => labels.names.lookup node with
  | some name => s.jumpTo name
  | none => s

end NodeLabels

namespace Event

/-- The nodes that jumps of an event go to, in the order of the visit. -/
def jumpNodes (e : Event) : List Nat := (Body.walk e.body).filterMap Statement.jumpNode?

/-- The nodes by which the statements of an event are known. -/
def nodes (e : Event) : List Nat := (Body.walk e.body).filterMap fun s => s.tags.node

/-- The first node jumped to that no statement is known by. -/
def missingNode? (e : Event) : Option Nat := e.jumpNodes.find? fun node => !e.nodes.contains node

/-- Replaces the jumps to nodes by jumps to labels. If several statements are known by one node,
the first in the order of the visit is meant. -/
def labelNodes (e : Event) : Outcome :=
  match e.missingNode? with
  | some node => ⟨e, some (.unresolvedNode node)⟩
  | none =>
    if e.jumpNodes.isEmpty then ⟨e, none⟩
    else
      let (e, labels) := e.edit (NodeLabels.visit e.jumpNodes) ⟨[], e.usedLabels⟩
      ⟨e.mapAll labels.redirect, none⟩

end Event

end EventScript
