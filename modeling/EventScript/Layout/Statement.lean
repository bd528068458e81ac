import EventScript.Layout.Tree
import EventScript.Statement.Text

/-!
The layout trees of conditions and statements.

A combination may be broken between its parts, and the call of a control statement in front of its
condition. All other statements stay on one line.
-/

namespace EventScript

namespace Condition

/-- The texts around a combination: parentheses, which are left out where they stand already, as
around an argument, unless they hold a negation or nothing. -/
def brackets (bare negated : Bool) (parts : List Condition) : Text × Text :=
  if bare && !negated && !parts.isEmpty then ([], [])
  else (negationMark negated ++ ['('], [')'])

mutual

/-- The layout of a condition, `bare` if it stands between parentheses already. -/
def layout (bare : Bool) : Condition → Layout.Tree
  | atom a negated remarks => .leaf (a.text negated) remarks
  | combine op parts negated remarks =>
    let (opening, closing) := brackets bare negated parts
    .node opening (layouts parts) op.separator closing remarks

/-- The layouts of the parts of a combination. -/
def layouts : List Condition → List Layout.Tree
  | [] => []
  | c :: cs => layout false c :: layouts cs

end

theorem layouts_eq_map (cs : List Condition) : layouts cs = cs.map (layout false) := by
  induction cs with
  | nil => rfl
  | cons c cs ih => rw [layouts, ih, List.map_cons]

mutual

/-- Without breaks, the layout of a condition that is not bare is its printed text. -/
theorem oneLine_layout : ∀ c : Condition, (c.layout false).oneLine = c.text
  | atom a negated remarks => by
    rw [layout, text, Layout.Tree.leaf, Layout.Tree.oneLine, Layout.Tree.partTexts]
    simp
  | combine op parts negated remarks => by
    have h := partTexts_layouts parts
    simp only [layout, brackets, Bool.false_and, Bool.false_eq_true, if_false, text,
      Layout.Tree.oneLine, h]

/-- Without breaks, the layouts of parts are their printed texts. -/
theorem partTexts_layouts : ∀ cs : List Condition,
    Layout.Tree.partTexts (layouts cs) = texts cs
  | [] => rfl
  | c :: cs => by
    rw [layouts, Layout.Tree.partTexts, texts, oneLine_layout c, partTexts_layouts cs]

end

end Condition

namespace Action

/-- The layout of an action. A call without a condition keeps the remarks of the sentinel. -/
def layout : Action → Layout.Tree
  | finish ending c =>
    if c.isAlways then .leaf (finish ending c).text c.remarks
    else .behind (ending.callName false ++ ['(']) (c.layout true) ");".toList
  | assign group variableName op c =>
    .between (assignHead group variableName op) (c.layout true) [';']
  | jump target c =>
    if c.isAlways then .leaf (jump target c).text c.remarks
    else .behind (target.callHead false ++ ", ".toList) (c.layout true) ");".toList
  | wait c _ => .behind "WaitFor(".toList (c.layout true) ");".toList
  | a => .leaf a.text []

end Action

namespace Statement

/-- The layout of a statement; of a loop or a choice it is that of the head. -/
def layout : Statement → Layout.Tree
  | simple _ a => a.layout
  | choice _ c _ _ => .between "if (".toList (c.layout true) (')' :: Text.blockOpen)
  | loop tags code body => .leaf (loop tags code body).text []

end Statement

end EventScript
