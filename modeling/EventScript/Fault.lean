import EventScript.Text

/-!
Faults: what can be wrong with an event, and with printing it.

A fault is the cause alone. Its wording is `Fault.message`, and `Fault.advice` is what can be done
about it, where something can. `FormatFault` adds what can go wrong when events are printed.
-/

namespace EventScript

/-- What stops a jump over a number of commands from finding its target. -/
inductive SkipObstacle where
  /-- The body ends before enough commands were passed. -/
  | endOfBody
  /-- A statement with bodies of its own stands in between. -/
  | nestedBlock
deriving DecidableEq, Repr

/-- The wording of an obstacle. -/
def SkipObstacle.text : SkipObstacle → Text
  | .endOfBody => "runs past the end of the body".toList
  | .nestedBlock => "crosses a nested block".toList

/-- A fault of an event. Conditions and statements are named by their printed text. -/
inductive Fault where
  /-- A jump to a label that is no label of a command and is declared nowhere. -/
  | unresolvedLabel (label : Text)
  /-- A jump to a node that no statement bears. -/
  | unresolvedNode (node : Nat)
  /-- A jump over commands that has no target. -/
  | unresolvedSkip (commands : Nat) (obstacle : SkipObstacle)
  /-- A condition variable that is read and never assigned. -/
  | unassignedVariable (name : Text)
  /-- A jump whose target is not a label yet. -/
  | transientJump (statement : Text)
  /-- A condition that no built-in command stands for. -/
  | noBuiltInCommand (condition : Text)
  /-- A statement without a control argument. -/
  | noControlArgument (statement : Text)
deriving DecidableEq, Repr

namespace Fault

/-- The wording of a fault. -/
def message : Fault → Text
  | unresolvedLabel label => "Unresolved label ".toList ++ label
  | unresolvedNode node => "Unresolved jump to internal node ".toList ++ Text.ofNat node
  | unresolvedSkip commands obstacle =>
    "Cannot resolve skip of ".toList ++ Text.ofNat commands ++ " lines: ".toList ++ obstacle.text
  | unassignedVariable name => "Condition variable ".toList ++ name ++ " is never assigned".toList
  | transientJump statement =>
    "Jump ".toList ++ statement ++ " must target a label in a resolved tree".toList
  | noBuiltInCommand condition => "No built-in command corresponding to ".toList ++ condition
  | noControlArgument statement => statement ++ " has no control argument".toList

/-- What to do about a fault. -/
def advice : Fault → Option Text
  | noBuiltInCommand _ =>
    some "flatten the condition into condition group slots before emitting it".toList
  | _ => none

end Fault

/-- Why formatting failed. -/
inductive FormatFault where
  /-- An event was refused. -/
  | event (fault : Fault)
  /-- The sink did not take all of the text. -/
  | write
  /-- The settings could not be read. -/
  | settings
deriving DecidableEq, Repr

namespace FormatFault

/-- The wording of a fault. What is wrong with settings is not told. -/
def message : FormatFault → Option Text
  | event fault => some fault.message
  | write => some "Failed to write formatted output".toList
  | settings => none

/-- What to do about a fault. -/
def advice : FormatFault → Option Text
  | event fault => fault.advice
  | _ => none

end FormatFault

end EventScript
