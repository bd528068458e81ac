import EventScript.Condition.Walk
import EventScript.Statement.Basic

/-!
Visits of all statements in a body.

The statements nested in a statement are visited before it, in the order in which they stand.

* `Statement.walk`, `Body.walk`: the statements in the order of the visit;
* `Statement.edit`, `Body.edit`: a visit that may change what it sees;
* `Body.mapAll`: such a visit without a state;
* `Statement.allRemarks`: all remarks in a statement, those on conditions included.
-/

namespace EventScript

mutual

/-- The statements in a statement, each after those nested in it. -/
def Statement.walk : Statement → List Statement
  | .simple tags a => [.simple tags a]
  | .loop tags code body => Body.walk body ++ [.loop tags code body]
  | .choice tags c yes no => Body.walk yes ++ Body.walk no ++ [.choice tags c yes no]

/-- The statements in a body. -/
def Body.walk : List Statement → List Statement
  | [] => []
  | s :: rest => s.walk ++ Body.walk rest

end

theorem Body.walk_eq_flatMap (body : Body) : Body.walk body = body.flatMap Statement.walk := by
  induction body with
  | nil => rfl
  | cons s rest ih => rw [Body.walk, ih, List.flatMap_cons]

mutual

/-- Visits a statement with a state: its bodies first, then the statement with the bodies that
resulted. What the visitor returns takes the place of what it was given, and is not visited. -/
def Statement.edit {σ : Type} (visit : Statement → σ → Statement × σ) :
    Statement → σ → Statement × σ
  | .simple tags a, st => visit (.simple tags a) st
  | .loop tags code body, st =>
    let (body, st) := Body.edit visit body st
    visit (.loop tags code body) st
  | .choice tags c yes no, st =>
    let (yes, st) := Body.edit visit yes st
    let (no, st) := Body.edit visit no st
    visit (.choice tags c yes no) st

/-- Visits the statements of a body with a state. -/
def Body.edit {σ : Type} (visit : Statement → σ → Statement × σ) :
    List Statement → σ → List Statement × σ
  | [], st => ([], st)
  | s :: rest, st =>
    let (s, st) := s.edit visit st
    let (rest, st) := Body.edit visit rest st
    (s :: rest, st)

end

/-- Changes every statement of a body by itself, nested ones first. -/
def Body.mapAll (f : Statement → Statement) (body : Body) : Body :=
  (Body.edit (fun s (_ : Unit) => (f s, ())) body ()).1

namespace Statement

/-- The remarks on a statement and then those in its condition. -/
def ownRemarks (s : Statement) : List Remark :=
  s.tags.remarks ++ (s.condition?.map Condition.allRemarks).getD []

/-- All remarks in a statement and in the statements nested in it, in the order of the visit. -/
def allRemarks (s : Statement) : List Remark := s.walk.flatMap ownRemarks

end Statement

/-- All remarks in the statements of a body. -/
def Body.allRemarks (body : Body) : List Remark := body.flatMap Statement.allRemarks

end EventScript
