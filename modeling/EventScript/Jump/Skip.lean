import EventScript.Jump.Node

/-!
Jumps over commands become jumps to labels.

A jump over `k` commands lands behind the `k`-th command that follows it in its own body. The
statements passed on the way may not have bodies of their own; a jump that lands at the end of its
body is given a statement that does nothing to land on.

* `Body.distance`: how many statements a jump passes;
* `Body.skipFault?`: the first fault of such a jump;
* `Event.labelSkips`: the event with all such jumps replaced, or its fault.
-/

namespace EventScript

namespace Statement

/-- The number of commands a statement jumps over. -/
def jumpSkip? (s : Statement) : Option Nat :=
  match s.target? with
  | some (.skip commands) => some commands
  | _ => none

end Statement

namespace Body

/-- The number of statements that hold the next `commands` commands, or what stands in the way. -/
def distance : Nat → Body → Except SkipObstacle Nat
  | 0, _ => .ok 0
  | _ + 1, [] => .error .endOfBody
  | commands + 1, s :: rest =>
    if s.isBlock then .error .nestedBlock
    else (distance (if s.isCommand then commands else commands + 1) rest).map (· + 1)

/-- A jump passes no more statements than there are. -/
theorem distance_le : ∀ (commands : Nat) (body : Body) {passed : Nat},
    distance commands body = .ok passed → passed ≤ body.length
  | 0, body, passed, h => by
    have h' : passed = 0 := by rw [distance] at h; injection h with h; exact h.symm
    omega
  | commands + 1, [], passed, h => by rw [distance] at h; cases h
  | commands + 1, s :: rest, passed, h => by
    rw [distance] at h
    by_cases hb : s.isBlock = true
    · rw [if_pos hb] at h; cases h
    · rw [if_neg hb] at h
      cases hd : distance (if s.isCommand then commands else commands + 1) rest with
      | error obstacle => rw [hd] at h; cases h
      | ok further =>
        rw [hd] at h
        have hp : passed = further + 1 := by injection h with h; exact h.symm
        have hle := distance_le _ rest hd
        rw [hp, List.length_cons]
        omega

/-- The index at which a jump over `commands` commands from an index lands. -/
def landing (body : Body) (index commands : Nat) : Except Fault Nat :=
  match distance commands (body.drop (index + 1)) with
  | .ok passed => .ok (index + 1 + passed)
  | .error obstacle => .error (.unresolvedSkip commands obstacle)

end Body

/-- The fault of a statement that jumps over commands of `rest`, the statements behind it. -/
def Statement.ownSkipFault? (s : Statement) (rest : Body) : Option Fault :=
  s.jumpSkip?.bind fun commands =>
    match Body.distance commands rest with
    | .ok _ => none
    | .error obstacle => some (.unresolvedSkip commands obstacle)

mutual

/-- The first fault among the jumps over commands nested in a statement. -/
def Statement.innerSkipFault? : Statement → Option Fault
  | .simple _ _ => none
  | .loop _ _ body => Body.skipFault? body
  | .choice _ _ yes no => (Body.skipFault? yes).or (Body.skipFault? no)

/-- The first fault among the jumps over commands in a body, in the order of the visit. -/
def Body.skipFault? : List Statement → Option Fault
  | [] => none
  | s :: rest => (s.innerSkipFault?.or (s.ownSkipFault? rest)).or (Body.skipFault? rest)

end

/-- What replacing jumps over commands left behind: what was changed, up to the fault that stopped
it if there was one, and the names then in use. -/
structure Relabeled (α : Type) where
  result : α
  used : List Text
  fault : Option Fault

namespace Body

/-- Replaces the jump over commands at an index, if there is one, by a jump to a label of the
statement it lands on. -/
def labelSkipAt (body : Body) (used : List Text) (index : Nat) :
    Except Fault (Body × List Text) :=
  match (body[index]?).bind Statement.jumpSkip? with
  | none => .ok (body, used)
  | some commands => do
    let target ← landing body index commands
    let body := if target = body.length then body ++ [.ofAction .noOp] else body
    match body[target]? with
    | none => pure (body, used)
    | some s =>
      let (s, name, used) := s.bearLabel "skip".toList used
      pure (List.modify (body.set target s) index (Statement.jumpTo name), used)

/-- Replaces the jumps over commands at the listed indices, in their order, up to the first that has
nowhere to land. -/
def labelSkipsAt : List Nat → Body → List Text → Relabeled Body
  | [], body, used => ⟨body, used, none⟩
  | index :: further, body, used =>
    match labelSkipAt body used index with
    | .error fault => ⟨body, used, some fault⟩
    | .ok (body, used) => labelSkipsAt further body used

/-- Replaces the jumps over commands of a body itself, first to last. -/
def labelOwnSkips (body : Body) (used : List Text) : Relabeled Body :=
  labelSkipsAt (List.range body.length) body used

end Body

/-- Goes on with the jumps over commands of a body itself, unless there was a fault before. -/
def Relabeled.thenOwn (r : Relabeled Body) : Relabeled Body :=
  match r.fault with
  | some _ => r
  | none => Body.labelOwnSkips r.result r.used

mutual

/-- Replaces the jumps over commands nested in a statement. Behind a fault nothing is changed. -/
def Statement.labelSkips : Statement → List Text → Relabeled Statement
  | .simple tags a, used => ⟨.simple tags a, used, none⟩
  | .loop tags code body, used =>
    let body := (Body.labelInnerSkips body used).thenOwn
    ⟨.loop tags code body.result, body.used, body.fault⟩
  | .choice tags c yes no, used =>
    let yes := (Body.labelInnerSkips yes used).thenOwn
    match yes.fault with
    | some fault => ⟨.choice tags c yes.result no, yes.used, some fault⟩
    | none =>
      let no := (Body.labelInnerSkips no yes.used).thenOwn
      ⟨.choice tags c yes.result no.result, no.used, no.fault⟩

/-- Replaces the jumps over commands nested in the statements of a body. -/
def Body.labelInnerSkips : List Statement → List Text → Relabeled (List Statement)
  | [], used => ⟨[], used, none⟩
  | s :: rest, used =>
    let s := s.labelSkips used
    match s.fault with
    | some fault => ⟨s.result :: rest, s.used, some fault⟩
    | none =>
      let rest := Body.labelInnerSkips rest s.used
      ⟨s.result :: rest.result, rest.used, rest.fault⟩

end

/-- Replaces the jumps over commands in a body: the nested ones first, then its own. -/
def Body.labelSkips (body : Body) (used : List Text) : Relabeled Body :=
  (Body.labelInnerSkips body used).thenOwn

namespace Event

/-- Replaces the jumps over commands by jumps to labels. All landings are looked up before anything
is changed. -/
def labelSkips (e : Event) : Outcome :=
  match Body.skipFault? e.body with
  | some fault => ⟨e, some fault⟩
  | none =>
    let body := Body.labelSkips e.body e.usedLabels
    ⟨{ e with body := body.result }, body.fault⟩

/-- Replaces every jump to a node, and then every jump over commands, by a jump to a label. A fault
of the second step leaves the first one done. -/
def resolveJumps (e : Event) : Outcome :=
  let outcome := e.labelNodes
  match outcome.fault with
  | some _ => outcome
  | none => outcome.event.labelSkips

end Event

end EventScript
