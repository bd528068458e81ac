import EventScript.Proofs.Statement.Shell

/-!
How far a jump over commands goes.

The model walks over the statements behind a jump. Here its walk is compared with counts.

* `Body.Passes`: the statements passed are the shortest run that holds the commands to be jumped
  over, which is where the walk ends (`passes_of_distance`);
* `Body.distance_eq`: the walk fails where fewer commands come before a block or the end of the body
  than are to be jumped over, and it names whichever of the two comes first;
* `Body.distance_of_kinds_prefix`: the walk sees the kinds of the statements alone, and nothing past
  its end.
-/

namespace EventScript

/-- What a jump over commands sees of a statement: whether it is a block, and whether it is a
command. -/
def Statement.kind (s : Statement) : Bool × Bool := (s.isBlock, s.isCommand)

namespace Body

/-! ### The walk as a count -/

/-- The first `passed` statements hold `commands` commands, and no fewer statements do. -/
structure Passes (commands : Nat) (rest : Body) (passed : Nat) : Prop where
  le_length : passed ≤ rest.length
  holds : (rest.take passed).countP Statement.isCommand = commands
  least : ∀ j < passed, (rest.take j).countP Statement.isCommand < commands

/-- The number of commands in front of the first block. -/
def commandsAhead (rest : Body) : Nat :=
  (rest.takeWhile fun s => !s.isBlock).countP Statement.isCommand

/-- What a jump over too many commands meets: a block, if there is one behind it. -/
def obstacle (rest : Body) : SkipObstacle :=
  if rest.any Statement.isBlock then .nestedBlock else .endOfBody

/-- One statement more in front of those passed. -/
lemma Passes.cons {commands passed : Nat} {s : Statement} {rest : Body}
    (h : Passes (if s.isCommand then commands else commands + 1) rest passed) :
    Passes (commands + 1) (s :: rest) (passed + 1) where
  le_length := Nat.succ_le_succ h.le_length
  holds := by
    have hh := h.holds
    rw [List.take_succ_cons, List.countP_cons, hh]
    split <;> simp_all
  least j hj := by
    cases j with
    | zero => simp
    | succ j =>
        have hl := h.least j (by omega)
        rw [List.take_succ_cons, List.countP_cons]
        split at hl <;> simp_all

/-- **The walk passes as many statements as hold the commands**, and no more. -/
theorem passes_of_distance (commands : Nat) (rest : Body) {passed : Nat}
    (h : distance commands rest = .ok passed) : Passes commands rest passed := by
  fun_induction distance commands rest generalizing passed with
  | case1 rest =>
      obtain rfl : 0 = passed := by injection h
      exact ⟨Nat.zero_le _, rfl, by simp⟩
  | case2 commands => cases h
  | case3 commands s rest hblock => cases h
  | case4 commands s rest hblock ih =>
      cases hd : distance (if s.isCommand then commands else commands + 1) rest with
      | error o =>
          rw [hd] at h
          cases h
      | ok further =>
          rw [hd] at h
          obtain rfl : further + 1 = passed := by injection h
          exact (ih hd).cons

/-- **The walk fails if there are too few commands in front of the first block or the end**, and it
meets whichever of them comes first. -/
theorem distance_eq (commands : Nat) (rest : Body) :
    (commandsAhead rest < commands → distance commands rest = .error (obstacle rest)) ∧
      (commands ≤ commandsAhead rest → ∃ passed, distance commands rest = .ok passed) := by
  fun_induction distance commands rest with
  | case1 rest => exact ⟨fun h => absurd h (Nat.not_lt_zero _), fun _ => ⟨0, rfl⟩⟩
  | case2 commands => exact ⟨fun _ => rfl, fun h => by simp [commandsAhead] at h⟩
  | case3 commands s rest hblock =>
      refine ⟨fun _ => by simp [obstacle, hblock], fun h => ?_⟩
      simp [commandsAhead, hblock] at h
  | case4 commands s rest hblock ih =>
      have hahead : commandsAhead (s :: rest) =
          commandsAhead rest + if s.isCommand then 1 else 0 := by
        rw [commandsAhead, List.takeWhile_cons_of_pos (by simpa using hblock), List.countP_cons]
        rfl
      have hobstacle : obstacle (s :: rest) = obstacle rest := by simp [obstacle, hblock]
      rw [hahead, hobstacle]
      constructor
      · intro h
        rw [ih.1 (by split at h <;> simp_all)]
        rfl
      · intro h
        obtain ⟨passed, hp⟩ := ih.2 (by split at h <;> simp_all)
        exact ⟨passed + 1, by rw [hp]; rfl⟩

/-! ### What the walk sees -/

/-- Kinds that go on in the same way do not change where the walk ends. -/
lemma distance_of_kinds_prefix {rest rest' : Body} (h : rest.map Statement.kind <+:
    rest'.map Statement.kind) (commands : Nat) {passed : Nat}
    (hd : distance commands rest = .ok passed) : distance commands rest' = .ok passed := by
  fun_induction distance commands rest generalizing rest' passed with
  | case1 rest => rw [distance, hd]
  | case2 commands => cases hd
  | case3 commands s rest hblock => cases hd
  | case4 commands s rest hblock ih =>
      cases rest' with
      | nil => simp at h
      | cons t rest' =>
          rw [List.map_cons, List.map_cons, List.cons_prefix_cons] at h
          obtain ⟨hkind, hrest⟩ := h
          obtain ⟨hb, hc⟩ := Prod.mk.inj hkind
          cases hd' : distance (if s.isCommand then commands else commands + 1) rest with
          | error o =>
              rw [hd'] at hd
              cases hd
          | ok further =>
              rw [hd'] at hd
              rw [distance, if_neg (by rw [← hb]; exact hblock), ← hc, ih hrest hd']
              exact hd

end Body

end EventScript
