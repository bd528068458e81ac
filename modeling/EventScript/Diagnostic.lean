import EventScript.Event

/-!
Diagnostics: faults with their place in the source, as an editor shows them.
-/

namespace EventScript

/-- A message about an event at a source line. Line zero stands for no known place. -/
structure Diagnostic where
  line : UInt32
  message : Text
  event : Option EventId
deriving DecidableEq, Repr

namespace Diagnostic

/-- A message about a statement of an event: at the first source line of the statement, or else at
that of the event. -/
def ofMessage (s : Option Statement) (message : Text) (e : Event) : Diagnostic :=
  let lines := (s.bind fun s => s.tags.lines).or e.lines
  ⟨(lines.map LineMap.source).getD 0, message, some e.id⟩

/-- The message of a fault, at the place of a statement of an event. -/
def ofFault (s : Option Statement) (fault : Fault) (e : Event) : Diagnostic :=
  ofMessage s fault.message e

/-- The printed text of a diagnostic. -/
def text (d : Diagnostic) : Text :=
  let place := "line ".toList ++ Text.ofNat d.line.toNat ++ ": ".toList ++ d.message
  match d.event with
  | some id => "Event ".toList ++ id.text ++ [' '] ++ place
  | none => place

end Diagnostic

end EventScript
