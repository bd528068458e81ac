import EventScript.Condition.Basic
import EventScript.Label
import EventScript.LineMap

/-!
Statements: the bodies of events.

A statement is an action, a loop with a body, or a choice between two bodies, and each has tags that
do not belong to what it does: the node it is known by, the labels in front of it, its remarks, its
source lines, and a wish for the name of its label.

* `Statement`, `Body`: statements, and lists of them;
* `Statement.condition?`, `Statement.mapCondition`: the condition of a statement;
* `Statement.bodies`: the bodies nested in a statement.
-/

namespace EventScript

/-- How an event is ended. -/
inductive Ending where
  | stop
  | restart
deriving DecidableEq, Repr

/-- The number an ending compiles to. -/
def Ending.code : Ending → Int
  | .stop => 0
  | .restart => 1

/-- How a result is stored. -/
inductive AssignOperator where
  | store
  | storeOr
  | storeAnd
deriving DecidableEq, Repr

/-- The printed operator. -/
def AssignOperator.symbol : AssignOperator → Text
  | .store => "=".toList
  | .storeOr => "|=".toList
  | .storeAnd => "&=".toList

/-- Where a jump goes. -/
inductive Target where
  | label (name : Text)
  /-- The statement known by a node, before labels are given out. -/
  | node (node : Nat)
  /-- Over a number of commands, before labels are given out. -/
  | skip (commands : Nat)
deriving DecidableEq, Repr

/-- The label of a target. -/
def Target.label? : Target → Option Text
  | .label name => some name
  | _ => none

/-- A statement without bodies, apart from its tags. -/
inductive Action where
  /-- Nothing; it only bears labels. -/
  | noOp
  | command (c : Command)
  /-- A numbered label. -/
  | label (number : Nat)
  /-- Script text that is passed on as it is, with the names it declares. -/
  | script (code : Text) (declared : List Text)
  /-- The head of a loop whose body follows as statements. -/
  | loopStart (code : Text) (node : Option Nat)
  /-- The end of such a loop. -/
  | loopEnd
  /-- The place where jumps to a label with a leading number sign land. -/
  | fillSkip (label : Text)
  /-- A distance that is filled in from the matching place. -/
  | reserveSkip (label : Text)
  | finish (ending : Ending) (condition : Condition)
  /-- Storing the result of a condition in a group, or in a variable if there is one. -/
  | assign (group : Int) (variableName : Option Text) (op : AssignOperator) (condition : Condition)
  | jump (target : Target) (condition : Condition)
  | wait (condition : Condition) (isSpecial : Bool)

/-- What a statement carries beside what it does. -/
structure Tags where
  /-- The node by which jumps know the statement before labels are given out. -/
  node : Option Nat := none
  /-- The labels printed in front of the statement. -/
  labels : List Text := []
  remarks : List Remark := []
  lines : Option LineMap := none
  /-- The wished name for a label that the statement is given. -/
  labelHint : Option Text := none
deriving DecidableEq, Repr

/-- A statement of an event. -/
inductive Statement where
  | simple (tags : Tags) (action : Action)
  | loop (tags : Tags) (code : Text) (body : List Statement)
  | choice (tags : Tags) (condition : Condition) (yes no : List Statement)

/-- The statements of an event, a loop, or a branch of a choice, in order. -/
abbrev Body := List Statement

namespace Action

/-- The condition of an action. -/
def condition? : Action → Option Condition
  | finish _ c => some c
  | assign _ _ _ c => some c
  | jump _ c => some c
  | wait c _ => some c
  | _ => none

/-- The action with a changed condition. -/
def mapCondition (f : Condition → Condition) : Action → Action
  | finish ending c => finish ending (f c)
  | assign group variableName op c => assign group variableName op (f c)
  | jump target c => jump target (f c)
  | wait c isSpecial => wait (f c) isSpecial
  | a => a

/-- The label of a jump. -/
def jumpLabel? : Action → Option Text
  | jump target _ => target.label?
  | _ => none

end Action

namespace Statement

/-- A statement without tags. -/
def ofAction (a : Action) : Statement := simple {} a

/-- The tags of a statement. -/
def tags : Statement → Tags
  | simple tags _ => tags
  | loop tags _ _ => tags
  | choice tags _ _ _ => tags

/-- The statement with changed tags. -/
def mapTags (f : Tags → Tags) : Statement → Statement
  | simple tags a => simple (f tags) a
  | loop tags code body => loop (f tags) code body
  | choice tags c yes no => choice (f tags) c yes no

@[simp] theorem tags_mapTags (f : Tags → Tags) (s : Statement) : (s.mapTags f).tags = f s.tags := by
  cases s <;> rfl

/-- The action of a statement without bodies. -/
def action? : Statement → Option Action
  | simple _ a => some a
  | _ => none

/-- The condition of a statement. -/
def condition? : Statement → Option Condition
  | simple _ a => a.condition?
  | loop .. => none
  | choice _ c _ _ => some c

/-- The statement with a changed condition. -/
def mapCondition (f : Condition → Condition) : Statement → Statement
  | simple tags a => simple tags (a.mapCondition f)
  | loop tags code body => loop tags code body
  | choice tags c yes no => choice tags (f c) yes no

/-- The bodies nested in a statement, in the order in which they run. -/
def bodies : Statement → List Body
  | simple .. => []
  | loop _ _ body => [body]
  | choice _ _ yes no => [yes, no]

/-- The statement with other remarks. -/
def withRemarks (rs : List Remark) (s : Statement) : Statement :=
  s.mapTags fun tags => { tags with remarks := rs }

/-! ### Kinds -/

/-- Whether the statement does nothing. -/
def isNoOp : Statement → Bool
  | simple _ .noOp => true
  | _ => false

/-- Whether the statement is a numbered label. -/
def isLabel : Statement → Bool
  | simple _ (.label _) => true
  | _ => false

/-- Whether the statement is part of the script that runs at compile time. -/
def isScript : Statement → Bool
  | simple _ (.script ..) => true
  | simple _ (.loopStart ..) => true
  | simple _ .loopEnd => true
  | _ => false

/-- Whether the statement compiles to exactly one command. A numbered label is a command too. -/
def isCommand : Statement → Bool
  | simple _ (.command _) => true
  | simple _ (.label _) => true
  | simple _ (.finish ..) => true
  | simple _ (.assign ..) => true
  | simple _ (.jump ..) => true
  | simple _ (.wait ..) => true
  | _ => false

/-- Whether the statement is a choice. -/
def isChoice : Statement → Bool
  | choice .. => true
  | _ => false

/-- Whether the statement has bodies of its own, were they empty. -/
def isBlock : Statement → Bool
  | simple .. => false
  | loop .. => true
  | choice .. => true

end Statement

end EventScript
