import EventScript.Statement.Text

/-!
What control statements compile to: a kind of control command and its first argument.
-/

namespace EventScript

/-- The kinds of control commands. -/
inductive ControlKind where
  /-- Storing a condition in a group; waiting stores into the main one. -/
  | condition
  /-- Jumping over commands. -/
  | skip
  /-- Ending the event. -/
  | finish
  /-- Jumping to a label. -/
  | jump
deriving DecidableEq, Repr

/-- The first argument of a control command. -/
inductive ControlArgument where
  | int (n : Int)
  /-- A distance that is filled in at the place of a label. -/
  | reserved (label : Text)
deriving DecidableEq, Repr

namespace Statement

/-- Whether a label marks a place whose distance is filled in later. -/
def isReservedLabel (label : Text) : Bool := label.head? == some '#'

/-- The kind of control command that a statement compiles to. -/
def controlKind? (s : Statement) : Except Fault ControlKind :=
  match s with
  | simple _ (.finish ..) => .ok .finish
  | simple _ (.assign ..) => .ok .condition
  | simple _ (.wait ..) => .ok .condition
  | simple _ (.jump (.label name) _) => .ok (if isReservedLabel name then .skip else .jump)
  | simple _ (.jump (.node _) _) => .ok .skip
  | simple _ (.jump (.skip _) _) => .ok .skip
  | _ => .error (.noControlArgument s.text)

/-- The first argument of the control command that a statement compiles to. -/
def controlArgument? (s : Statement) : Except Fault ControlArgument :=
  match s with
  | simple _ (.finish ending _) => .ok (.int ending.code)
  | simple _ (.assign group _ _ _) => .ok (.int group)
  | simple _ (.wait ..) => .ok (.int 0)
  | simple _ (.jump (.skip commands) _) => .ok (.int commands)
  | simple _ (.jump (.node node) _) => .error (.unresolvedNode node)
  | simple _ (.jump (.label name) _) =>
    match Label.number? name with
    | some n => .ok (.int n)
    | none =>
      if isReservedLabel name then .ok (.reserved name) else .error (.unresolvedLabel name)
  | _ => .error (.noControlArgument s.text)

end Statement

end EventScript
