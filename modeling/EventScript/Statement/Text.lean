import EventScript.Condition.Text
import EventScript.Statement.Basic

/-!
The printed text of statements on one line.

Of a loop or a choice it is the head alone, up to the opening brace.
-/

namespace EventScript

namespace Ending

/-- The name of the call that ends an event, without a condition or with one. -/
def callName (ending : Ending) (isAlways : Bool) : Text :=
  match isAlways, ending with
  | true, .stop => "EndEvent".toList
  | true, .restart => "RestartEvent".toList
  | false, .stop => "EndIf".toList
  | false, .restart => "RestartIf".toList

end Ending

namespace Target

/-- The call of a jump up to its condition, like `GotoIf(L1`. -/
def callHead (target : Target) (isAlways : Bool) : Text :=
  let mark := if isAlways then [] else "If".toList
  match target with
  | label name => "Goto".toList ++ mark ++ ['('] ++ name
  | node n => "Goto".toList ++ mark ++ "Internal(".toList ++ Text.ofNat n
  | skip commands => "SkipLines".toList ++ mark ++ ['('] ++ Text.ofNat commands

end Target

namespace Action

/-- The printed target of an assignment. -/
def assignee (group : Int) (variableName : Option Text) : Text :=
  match variableName with
  | some name => name
  | none => "cond[".toList ++ Text.ofInt group ++ [']']

/-- The printed assignment up to the stored condition. -/
def assignHead (group : Int) (variableName : Option Text) (op : AssignOperator) : Text :=
  assignee group variableName ++ [' '] ++ op.symbol ++ [' ']

/-- The printed text of an action. -/
def text : Action → Text
  | noOp => "NoOp();".toList
  | command c => c.text
  | label n => Label.name n ++ [':']
  | script code _ => code
  | loopStart code _ => code ++ Text.blockOpen
  | loopEnd => Text.blockClose
  | fillSkip name => "_FillSkip(\"".toList ++ name ++ "\");".toList
  | reserveSkip name => "_ReserveSkip(\"".toList ++ name ++ "\");".toList
  | finish ending c =>
    ending.callName c.isAlways ++ ['('] ++ (if c.isAlways then [] else c.bareText) ++ ");".toList
  | assign group variableName op c => assignHead group variableName op ++ c.bareText ++ [';']
  | jump target c =>
    target.callHead c.isAlways ++ (if c.isAlways then [] else ", ".toList ++ c.bareText) ++
      ");".toList
  | wait c _ => "WaitFor(".toList ++ c.bareText ++ ");".toList

end Action

namespace Statement

/-- The printed text of a statement. -/
def text : Statement → Text
  | simple _ a => a.text
  | loop _ code _ => code ++ Text.blockOpen
  | choice _ c _ _ => "if (".toList ++ c.bareText ++ (')' :: Text.blockOpen)

end Statement

end EventScript
