import EventScript.Statement.Basic

/-!
Positions of statements in a body, at any depth.

* `Body.get?`: the statement at a position;
* `Body.modify`: a body with the statement at a position changed, which `Body.get?_modify` reads
  back.
-/

namespace EventScript

/-- Where a statement stands in a body: at an index of the body itself, or at a position in one of
the bodies nested in the statement at an index. -/
inductive Position where
  | here (index : Nat)
  | inside (index branch : Nat) (rest : Position)
deriving DecidableEq, Repr

namespace Statement

/-- The statement with one of its bodies changed. -/
def mapBranch (f : Body → Body) : Nat → Statement → Statement
  | 0, loop tags code body => loop tags code (f body)
  | 0, choice tags c yes no => choice tags c (f yes) no
  | 1, choice tags c yes no => choice tags c yes (f no)
  | _, s => s

/-- Of the nested bodies the one that was meant is changed, and no other. -/
@[simp] theorem bodies_mapBranch (f : Body → Body) (branch : Nat) (s : Statement) :
    (s.mapBranch f branch).bodies = s.bodies.modify branch f := by
  cases s with
  | simple tags a => simp [mapBranch, bodies]
  | loop tags code body =>
    match branch with
    | 0 => rfl
    | n + 1 => simp [mapBranch, bodies]
  | choice tags c yes no =>
    match branch with
    | 0 => rfl
    | 1 => rfl
    | n + 2 => simp [mapBranch, bodies]

end Statement

namespace Body

/-- The statement at a position. -/
def get? (body : Body) : Position → Option Statement
  | .here index => body[index]?
  | .inside index branch rest =>
    (body[index]?).bind fun s => (s.bodies[branch]?).bind fun inner => get? inner rest

/-- The body with the statement at a position changed. -/
def modify (f : Statement → Statement) : Position → Body → Body
  | .here index, body => List.modify body index f
  | .inside index branch rest, body =>
    List.modify body index (Statement.mapBranch (modify f rest) branch)

/-- At the changed position stands the changed statement. -/
theorem get?_modify (f : Statement → Statement) (p : Position) (body : Body) :
    get? (modify f p body) p = (get? body p).map f := by
  induction p generalizing body with
  | here index => simp [get?, modify]
  | inside index branch rest ih =>
    rw [get?, get?, modify, List.getElem?_modify_eq]
    cases body[index]? with
    | none => rfl
    | some s =>
      rw [Option.map_eq_map, Option.map_some, Option.bind_some, Option.bind_some,
        Statement.bodies_mapBranch, List.getElem?_modify_eq]
      cases s.bodies[branch]? with
      | none => rfl
      | some inner => exact ih inner

end Body

end EventScript
