import EventScript.Condition.Basic

/-!
Visits of all conditions in a condition.

The parts of a combination are visited before the combination, in one of two directions.

* `Condition.walk`: the conditions in the order of the visit;
* `Condition.edit`: a visit that may change what it sees;
* `Condition.drain`: all remarks taken out of a condition.
-/

namespace EventScript

/-- The direction in which the parts of a combination are visited. -/
inductive Direction where
  /-- First part first. -/
  | forward
  /-- Last part first. -/
  | backward
deriving DecidableEq, Repr

namespace Condition

mutual

/-- The conditions in a condition, each after its parts. -/
def walk (dir : Direction) : Condition → List Condition
  | atom a negated remarks => [atom a negated remarks]
  | combine op parts negated remarks =>
    walkAll dir parts ++ [combine op parts negated remarks]

/-- The conditions in the parts of a combination. -/
def walkAll (dir : Direction) : List Condition → List Condition
  | [] => []
  | c :: cs =>
    match dir with
    | .forward => walk dir c ++ walkAll dir cs
    | .backward => walkAll dir cs ++ walk dir c

end

mutual

/-- Visits a condition with a state: its parts first, then the condition with the parts that
resulted. What the visitor returns takes the place of what it was given, and is not visited. -/
def edit {σ : Type} (dir : Direction) (visit : Condition → σ → Condition × σ) :
    Condition → σ → Condition × σ
  | atom a negated remarks, s => visit (atom a negated remarks) s
  | combine op parts negated remarks, s =>
    let (parts, s) := editAll dir visit parts s
    visit (combine op parts negated remarks) s

/-- Visits the parts of a combination with a state. -/
def editAll {σ : Type} (dir : Direction) (visit : Condition → σ → Condition × σ) :
    List Condition → σ → List Condition × σ
  | [], s => ([], s)
  | c :: cs, s =>
    match dir with
    | .forward =>
      let (c, s) := edit dir visit c s
      let (cs, s) := editAll dir visit cs s
      (c :: cs, s)
    | .backward =>
      let (cs, s) := editAll dir visit cs s
      let (c, s) := edit dir visit c s
      (c :: cs, s)

end

/-- The remarks on a condition and on all conditions in it, in the order of a forward visit. -/
def allRemarks (c : Condition) : List Remark := (c.walk .forward).flatMap remarks

/-- The condition without any remarks, and the remarks that were taken out of it. -/
def drain (c : Condition) : Condition × List Remark :=
  c.edit .forward (fun c drained => (c.withRemarks [], drained ++ c.remarks)) []

end Condition

end EventScript
