import EventScript.Condition.Basic
import EventScript.Fault

/-!
The printed text of conditions on one line.

* `Condition.text`: the text, a combination in parentheses;
* `Condition.bareText`: the text as an argument, without the pair of parentheses around it;
* `Condition.builtIn?`: the built-in command that a condition compiles to.
-/

namespace EventScript

namespace Condition

mutual

/-- The printed text of a condition. -/
def text : Condition → Text
  | atom a negated _ => a.text negated
  | combine op parts negated _ =>
    negationMark negated ++ ['('] ++ op.separator.intercalate (texts parts) ++ [')']

/-- The printed texts of conditions. -/
def texts : List Condition → List Text
  | [] => []
  | c :: cs => c.text :: texts cs

end

/-- The printed text of a condition in the place of an argument, where it stands between
parentheses already. -/
def bareText (c : Condition) : Text := Text.unwrap c.text

/-- The name of the built-in command that a condition compiles to. Combinations and unreadable
conditions have none. -/
def builtIn? (c : Condition) : Except Fault Text :=
  match c with
  | atom (.compare _ (.query q) _) _ _ => .ok q.name
  | atom (.compare _ (.value _) _) _ _ => .ok "Op".toList
  | atom (.query q) _ _ => .ok q.name
  | atom (.read _ true _) _ _ => .ok "CompiledConditionGroup".toList
  | atom (.read _ false _) _ _ => .ok "ConditionGroup".toList
  | atom (.unreadable _) _ _ => .error (.noBuiltInCommand c.text)
  | combine .. => .error (.noBuiltInCommand c.text)

end Condition

end EventScript
