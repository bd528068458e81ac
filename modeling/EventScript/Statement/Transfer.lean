import EventScript.Statement.Walk

/-!
Moving remarks from one statement to another, when a statement is dropped or merged.

* `Statement.drainCondition`: the remarks taken out of the condition of a statement;
* `Statement.handOver`: all remarks of a statement put on another one.
-/

namespace EventScript

namespace Statement

/-- The statement without the remarks in its condition, and those remarks. -/
def drainCondition (s : Statement) : Statement × List Remark :=
  (s.mapCondition fun c => c.drain.1, (s.condition?.map fun c => c.drain.2).getD [])

/-- The statement with remarks put behind its own. -/
def addRemarks (rs : List Remark) (s : Statement) : Statement :=
  s.withRemarks (s.tags.remarks ++ rs)

/-- The statement with remarks put behind those of its condition. -/
def addConditionRemarks (rs : List Remark) (s : Statement) : Statement :=
  s.mapCondition fun c => c.withRemarks (c.remarks ++ rs)

/-- The first half of a move that includes conditions. The remarks in the condition of `s` are
lifted onto `other`; then the remarks on `s` that once belonged to a condition are put on the
condition of `other`, if it has one. -/
def handOverConditions (s other : Statement) : Statement × Statement :=
  let (s, lifted) := s.drainCondition
  let other := other.addRemarks lifted
  match other.condition? with
  | none => (s, other)
  | some _ =>
    (s.withRemarks (s.tags.remarks.filter fun r => !r.forCondition),
      other.addConditionRemarks (s.tags.remarks.filter fun r => r.forCondition))

/-- Moves the remarks on `s` onto `other`, together with the source lines and the wished label
name, which replace those of `other` even where `s` has none. With `withConditions` the remarks in
conditions are moved too. -/
def handOver (s other : Statement) (withConditions : Bool) : Statement × Statement :=
  let (s, other) := if withConditions then handOverConditions s other else (s, other)
  (s.withRemarks [],
    (other.addRemarks s.tags.remarks).mapTags fun tags =>
      { tags with lines := s.tags.lines, labelHint := s.tags.labelHint })

end Statement

end EventScript
