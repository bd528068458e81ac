import EventScript.Proofs.Jump.Node
import EventScript.Proofs.Jump.Skip

/-!
Jumps over commands at any depth: what replacing them by jumps to labels leaves behind.

The bodies nested in a body are done before it, so its own jumps see statements whose bodies have
changed already, but whose kinds have not.

* `Body.Settled`: what became of a body and of those nested in it, read off at positions;
* `Body.settled_of_labelled`: the bodies nested in a body and then its own jumps, put together;
* `Body.done_labelSkips`: replacing the jumps leaves a settled body, if the check finds no fault;
* `Event.settled_labelSkips`: hence it never fails behind the check.
-/

namespace EventScript

/-! ### Settled bodies -/

/-- What the jumps over commands of a body, and of those nested in it, have become. -/
structure Body.Settled (old new : Body) : Prop where
  /-- Every statement stands at its place, changed. -/
  follows : Body.Follows old new
  /-- A statement at any other place bears a label, and stands at the end of its body. -/
  added : ∀ ⦃q t⦄, Body.get? new q = some t → Body.get? old q = none →
    (∃ name, t = .bearer name) ∧ Body.behind new q = []
  /-- A jump over commands goes to a label of the statement on which it landed. -/
  lands : ∀ ⦃q s commands⦄, Body.get? old q = some s → s.jumpSkip? = some commands →
    ∃ passed t u name, Body.distance commands (Body.behind old q) = .ok passed ∧
      Body.get? new q = some t ∧ t.jumpLabel? = some name ∧
        Body.get? new (q.forward (passed + 1)) = some u ∧ u.tags.labels.head? = some name
  /-- Any other jump goes where it went. -/
  others : ∀ ⦃q s t⦄, Body.get? old q = some s → s.jumpSkip? = none →
    Body.get? new q = some t → t.target? = s.target?

/-- The statement is the same, but for its bodies, which are settled. -/
structure Statement.Settled (s t : Statement) : Prop where
  shell : t.shell = s.shell
  bodies : ∀ ⦃branch : Nat⦄ ⦃inner : Body⦄, s.bodies[branch]? = some inner →
    ∃ inner', t.bodies[branch]? = some inner' ∧ Body.Settled inner inner'

/-- The statements of a body are the same, but for their bodies, which are settled. -/
structure Body.InnerSettled (body body' : Body) : Prop where
  length : body'.length = body.length
  each : ∀ ⦃j : Nat⦄ ⦃s : Statement⦄, body[j]? = some s → ∃ t, body'[j]? = some t ∧ s.Settled t

namespace Statement

/-- Shells tell how many bodies there are. -/
lemma length_bodies_eq_of_shell {s t : Statement} (h : t.shell = s.shell) :
    t.bodies.length = s.bodies.length := by
  have hlength : ∀ u : Statement, u.shell.bodies.length = u.bodies.length := by
    intro u
    cases u <;> rfl
  rw [← hlength t, h, hlength s]

lemma kind_eq_of_shell {s t : Statement} (h : t.shell = s.shell) : t.kind = s.kind := by
  rw [kind, kind, ← isBlock_shell, ← isCommand_shell, h, isBlock_shell, isCommand_shell]

lemma target?_eq_of_shell {s t : Statement} (h : t.shell = s.shell) : t.target? = s.target? := by
  rw [← target?_shell, h, target?_shell]

lemma jumpSkip?_eq_of_shell {s t : Statement} (h : t.shell = s.shell) :
    t.jumpSkip? = s.jumpSkip? := by
  rw [← jumpSkip?_shell, h, jumpSkip?_shell]

end Statement

namespace Body

namespace InnerSettled

variable {body body' : Body}

lemma kinds (h : InnerSettled body body') : body'.map Statement.kind = body.map Statement.kind := by
  refine List.ext_getElem? fun j => ?_
  rw [List.getElem?_map, List.getElem?_map]
  cases hs : body[j]? with
  | none => rw [List.getElem?_eq_none (by rw [h.length]; exact List.getElem?_eq_none_iff.mp hs)]
  | some s =>
      obtain ⟨t, ht, hsettled⟩ := h.each hs
      rw [ht, Option.map_some, Option.map_some, Statement.kind_eq_of_shell hsettled.shell]

/-- A jump passes as many statements as before. -/
lemma distance_drop (h : InnerSettled body body') (n commands : Nat) {passed : Nat}
    (hd : distance commands (body.drop n) = .ok passed) :
    distance commands (body'.drop n) = .ok passed := by
  refine distance_of_kinds_prefix ⟨[], ?_⟩ commands hd
  rw [List.append_nil, List.map_drop, List.map_drop, h.kinds]

/-- The statement in front of which the bodies were settled. -/
lemma exists_of_getElem? (h : InnerSettled body body') {j : Nat} {t : Statement}
    (ht : body'[j]? = some t) : ∃ s, body[j]? = some s ∧ s.Settled t := by
  have hlt : j < body.length := by
    rw [← h.length]
    exact (List.getElem?_eq_some_iff.mp ht).1
  obtain ⟨u, hu, hsettled⟩ := h.each (List.getElem?_eq_getElem hlt)
  obtain rfl := Option.some.inj (ht.symm.trans hu)
  exact ⟨_, List.getElem?_eq_getElem hlt, hsettled⟩

end InnerSettled

/-- What stands inside a statement, read off at its place. -/
lemma get?_inside {body inner : Body} {i branch : Nat} {s : Statement} (hs : body[i]? = some s)
    (hb : s.bodies[branch]? = some inner) (r : Position) :
    get? body (.inside i branch r) = get? inner r := by
  rw [get?, hs, Option.bind_some, hb, Option.bind_some]

lemma behind_inside {body inner : Body} {i branch : Nat} {s : Statement} (hs : body[i]? = some s)
    (hb : s.bodies[branch]? = some inner) (r : Position) :
    behind body (.inside i branch r) = behind inner r := by
  rw [behind, hs, Option.bind_some, hb, Option.map_some, Option.getD_some]

lemma exists_inner_of_get? {body : Body} {i branch : Nat} {r : Position} {s : Statement}
    (h : get? body (.inside i branch r) = some s) : ∃ (t : Statement) (inner : Body),
      body[i]? = some t ∧ t.bodies[branch]? = some inner ∧ get? inner r = some s := by
  rw [get?] at h
  obtain ⟨t, ht, h⟩ := Option.bind_eq_some_iff.mp h
  obtain ⟨inner, hb, h⟩ := Option.bind_eq_some_iff.mp h
  exact ⟨t, inner, ht, hb, h⟩

section Assembly

variable {body b new : Body}

/-- The statement at an index, once its bodies are settled and its own jump is done. -/
lemma exists_settled (hi : InnerSettled body b) (hl : Labelled b new []) {j : Nat} {s : Statement}
    (hs : body[j]? = some s) :
    ∃ t u, b[j]? = some t ∧ new[j]? = some u ∧ s.Settled t ∧ t.Change u := by
  obtain ⟨t, ht, hsettled⟩ := hi.each hs
  obtain ⟨u, hu, hchange⟩ := hl.kept ht
  exact ⟨t, u, ht, hu, hsettled, hchange⟩

/-- A body nested in a statement is nested in what it has become, settled. -/
lemma exists_settled_inner (hi : InnerSettled body b) (hl : Labelled b new []) {j branch : Nat}
    {s : Statement} {inner : Body} (hs : body[j]? = some s)
    (hb : s.bodies[branch]? = some inner) :
    ∃ (u : Statement) (inner' : Body), new[j]? = some u ∧ u.bodies[branch]? = some inner' ∧
      Settled inner inner' := by
  obtain ⟨t, u, -, hu, hsettled, hchange⟩ := exists_settled hi hl hs
  obtain ⟨inner', hb', hinner⟩ := hsettled.bodies hb
  exact ⟨u, inner', hu, by rw [hchange.bodies, hb'], hinner⟩

lemma follows_of_labelled (hi : InnerSettled body b) (hl : Labelled b new []) :
    Follows body new := by
  intro q s hs
  cases q with
  | here j =>
      obtain ⟨t, u, -, hu, hsettled, hchange⟩ := exists_settled hi hl hs
      refine ⟨u, hu, ?_⟩
      rw [← hsettled.shell]
      exact hchange.shell
  | inside j branch r =>
      obtain ⟨t, inner, ht, hb, hs⟩ := exists_inner_of_get? hs
      obtain ⟨u, inner', hu, hb', hinner⟩ := exists_settled_inner hi hl ht hb
      rw [get?_inside hu hb']
      exact hinner.follows hs

/-- What is new bears a label and stands at the end of its body. -/
lemma added_of_labelled (hi : InnerSettled body b) (hl : Labelled b new []) {q : Position}
    {t : Statement} (ht : get? new q = some t) (hnone : get? body q = none) :
    (∃ name, t = .bearer name) ∧ behind new q = [] := by
  cases q with
  | here j =>
      have hb : b[j]? = none :=
        List.getElem?_eq_none (by rw [hi.length]; exact List.getElem?_eq_none_iff.mp hnone)
      obtain ⟨hj, hbearer⟩ := hl.added ht hb
      refine ⟨hbearer, List.drop_eq_nil_of_le (Nat.not_lt.mp fun hlt => ?_)⟩
      -- One index more would be one behind the only new statement.
      obtain ⟨hj', -⟩ := hl.added (List.getElem?_eq_getElem hlt)
        (List.getElem?_eq_none (by omega))
      omega
  | inside j branch r =>
      obtain ⟨u, inner', hu, hb', ht⟩ := exists_inner_of_get? ht
      cases hb : b[j]? with
      | none =>
          obtain ⟨-, name, rfl⟩ := hl.added hu hb
          cases hb'
      | some v =>
          obtain ⟨s, hs, hsettled⟩ := hi.exists_of_getElem? hb
          obtain ⟨u', hu', hchange⟩ := hl.kept hb
          obtain rfl := Option.some.inj (hu.symm.trans hu')
          have hlt : branch < s.bodies.length := by
            rw [← Statement.length_bodies_eq_of_shell hsettled.shell, ← hchange.bodies]
            exact (List.getElem?_eq_some_iff.mp hb').1
          have hinner := List.getElem?_eq_getElem hlt
          obtain ⟨inner'', hb'', hsettled'⟩ := hsettled.bodies hinner
          rw [← hchange.bodies] at hb''
          obtain rfl := Option.some.inj (hb'.symm.trans hb'')
          rw [get?_inside hs hinner] at hnone
          rw [behind_inside hu hb']
          exact hsettled'.added ht hnone

lemma lands_of_labelled (hres : Resolvable body) (hi : InnerSettled body b)
    (hl : Labelled b new []) {q : Position} {s : Statement} {commands : Nat}
    (hs : get? body q = some s) (hjump : s.jumpSkip? = some commands) :
    ∃ passed t u name, distance commands (behind body q) = .ok passed ∧
      get? new q = some t ∧ t.jumpLabel? = some name ∧
        get? new (q.forward (passed + 1)) = some u ∧ u.tags.labels.head? = some name := by
  cases q with
  | here j =>
      obtain ⟨passed, hd⟩ := hres hs hjump
      obtain ⟨t, ht, hsettled⟩ := hi.each hs
      obtain ⟨u, v, name, hu, hname, hv, hhead⟩ := hl.lands ht
        ((Statement.jumpSkip?_eq_of_shell hsettled.shell).trans hjump) (List.not_mem_nil)
        (hi.distance_drop _ _ hd)
      refine ⟨passed, u, v, name, hd, hu, hname, ?_, hhead⟩
      rw [Position.forward, get?, ← hv]
      congr 1
      omega
  | inside j branch r =>
      obtain ⟨t, inner, ht, hb, hs⟩ := exists_inner_of_get? hs
      obtain ⟨u, inner', hu, hb', hinner⟩ := exists_settled_inner hi hl ht hb
      simp only [Position.forward, get?_inside hu hb', behind_inside ht hb]
      exact hinner.lands hs hjump

lemma others_of_labelled (hi : InnerSettled body b) (hl : Labelled b new []) {q : Position}
    {s t : Statement} (hs : get? body q = some s) (hnone : s.jumpSkip? = none)
    (ht : get? new q = some t) : t.target? = s.target? := by
  cases q with
  | here j =>
      obtain ⟨u, hu, hsettled⟩ := hi.each hs
      rw [← Statement.target?_eq_of_shell hsettled.shell]
      exact hl.waits hu ht
        (Or.inl ((Statement.jumpSkip?_eq_of_shell hsettled.shell).trans hnone))
  | inside j branch r =>
      obtain ⟨u, inner, hu, hb, hs⟩ := exists_inner_of_get? hs
      obtain ⟨v, inner', hv, hb', hinner⟩ := exists_settled_inner hi hl hu hb
      rw [get?_inside hv hb'] at ht
      exact hinner.others hs hnone ht

/-- **Nested bodies first, own jumps then**: the body is settled. -/
lemma settled_of_labelled (hres : Resolvable body) (hi : InnerSettled body b)
    (hl : Labelled b new []) : Settled body new where
  follows := follows_of_labelled hi hl
  added _ _ := added_of_labelled hi hl
  lands _ _ _ := lands_of_labelled hres hi hl
  others _ _ _ := others_of_labelled hi hl

end Assembly

end Body

/-! ### The check -/

/-- A statement whose own jump has no fault has a place to land. -/
lemma Statement.distance_of_ownSkipFault? {s : Statement} {rest : Body} {commands : Nat}
    (h : s.ownSkipFault? rest = none) (hs : s.jumpSkip? = some commands) :
    ∃ passed, Body.distance commands rest = .ok passed := by
  rw [ownSkipFault?, hs, Option.bind_some] at h
  cases hd : Body.distance commands rest with
  | ok passed => exact ⟨passed, rfl⟩
  | error o =>
      rw [hd] at h
      cases h

namespace Body

lemma skipFault?_cons_eq_none {s : Statement} {rest : Body} :
    skipFault? (s :: rest) = none ↔
      s.innerSkipFault? = none ∧ s.ownSkipFault? rest = none ∧ skipFault? rest = none := by
  rw [skipFault?, Option.or_eq_none_iff, Option.or_eq_none_iff, and_assoc]

/-- If the check finds no fault, every jump of the body itself has a place to land. -/
lemma resolvable_of_skipFault? {body : Body} (h : skipFault? body = none) : Resolvable body := by
  induction body with
  | nil => exact fun j s commands hs => by cases hs
  | cons s rest ih =>
      obtain ⟨-, hown, hrest⟩ := skipFault?_cons_eq_none.mp h
      intro j t commands ht hjump
      cases j with
      | zero =>
          obtain rfl := Option.some.inj ht
          exact Statement.distance_of_ownSkipFault? hown hjump
      | succ j => exact ih hrest ht hjump

/-- Places to land are left where they were. -/
lemma InnerSettled.resolvable {body b : Body} (h : InnerSettled body b) (hres : Resolvable body) :
    Resolvable b := by
  intro j t commands ht hjump
  obtain ⟨s, hs, hsettled⟩ := h.exists_of_getElem? ht
  rw [Statement.jumpSkip?_eq_of_shell hsettled.shell] at hjump
  obtain ⟨passed, hd⟩ := hres hs hjump
  exact ⟨passed, h.distance_drop _ _ hd⟩

end Body

/-! ### Runs -/

/-- There was no fault: what was changed became what it should, and its labels have grown. -/
structure Relabeled.Done {α : Type} (became : α → Prop) (used labels : List Text)
    (labelsOf : α → List Text) (r : Relabeled α) : Prop where
  fault : r.fault = none
  result : became r.result
  grows : Grows used r.used labels (labelsOf r.result)

namespace Body

/-- Settling the nested bodies and then the body itself, without a fault. -/
abbrev DoneInner (body : Body) (used : List Text) (r : Relabeled Body) : Prop :=
  r.Done (InnerSettled body) used (labels body) labels

abbrev DoneAll (body : Body) (used : List Text) (r : Relabeled Body) : Prop :=
  r.Done (Settled body) used (labels body) labels

/-- Behind the nested bodies the jumps of the body itself are replaced without a fault. -/
lemma done_thenOwn {body : Body} {used : List Text} {r : Relabeled Body}
    (hfault : skipFault? body = none) (hr : body.DoneInner used r) :
    body.DoneAll used r.thenOwn := by
  have hres := resolvable_of_skipFault? hfault
  obtain ⟨hfault', hdone, hgrows⟩ := labelled_labelSkipsAt r.used
    (hr.result.resolvable hres) (labelled_self r.result) List.nodup_range
    fun i hi => List.mem_range.mp hi
  rw [Relabeled.thenOwn, hr.fault]
  exact ⟨hfault', settled_of_labelled hres hr.result hdone, hr.grows.trans hgrows⟩

end Body

/-- With the same shell only the labels of the nested bodies have grown. -/
lemma Statement.grows_labels_of_shell {used used' : List Text} {s t : Statement}
    (hshell : t.shell = s.shell)
    (h : Grows used used' (s.bodies.flatMap Body.labels) (t.bodies.flatMap Body.labels)) :
    Grows used used' s.labels t.labels := by
  have hdeclared : t.declaredLabels = s.declaredLabels := by
    rw [← declaredLabels_shell, hshell, declaredLabels_shell]
  rw [labels_eq, labels_eq, hdeclared]
  exact h.append (Grows.refl _ _)

abbrev Statement.Done (s : Statement) (used : List Text) (r : Relabeled Statement) : Prop :=
  r.Done s.Settled used s.labels Statement.labels

mutual

/-- The bodies nested in a statement are settled without a fault. -/
lemma Statement.done_labelSkips : ∀ (s : Statement) (used : List Text),
    s.innerSkipFault? = none → s.Done used (s.labelSkips used)
  | .simple tags a, used, _ =>
      ⟨rfl, ⟨rfl, fun branch inner h => by cases h⟩, Grows.refl _ _⟩
  | .loop tags code body, used, h => by
      obtain ⟨hfault, hsettled, hgrows⟩ :=
        Body.done_thenOwn h (Body.done_labelInnerSkips body used h)
      refine ⟨hfault, ⟨rfl, fun branch inner hb => ?_⟩, ?_⟩
      · cases branch with
        | zero =>
            obtain rfl := Option.some.inj hb
            exact ⟨_, rfl, hsettled⟩
        | succ branch => cases hb
      · refine Statement.grows_labels_of_shell rfl ?_
        simpa [Statement.labelSkips, Statement.bodies] using hgrows
  | .choice tags c yes no, used, h => by
      obtain ⟨hyes, hno⟩ := Option.or_eq_none_iff.mp h
      obtain ⟨hfault, hsettled, hgrows⟩ :=
        Body.done_thenOwn hyes (Body.done_labelInnerSkips yes used hyes)
      obtain ⟨hfault', hsettled', hgrows'⟩ := Body.done_thenOwn hno
        (Body.done_labelInnerSkips no (Body.labelInnerSkips yes used).thenOwn.used hno)
      rw [Statement.labelSkips, hfault]
      refine ⟨hfault', ⟨rfl, fun branch inner hb => ?_⟩, ?_⟩
      · match branch with
        | 0 =>
            obtain rfl := Option.some.inj hb
            exact ⟨_, rfl, hsettled⟩
        | 1 =>
            obtain rfl := Option.some.inj hb
            exact ⟨_, rfl, hsettled'⟩
        | branch + 2 => cases hb
      · refine Statement.grows_labels_of_shell rfl ?_
        simpa [Statement.bodies] using hgrows.append hgrows'

/-- The bodies nested in statements are settled without a fault. -/
lemma Body.done_labelInnerSkips : ∀ (body : List Statement) (used : List Text),
    Body.skipFault? body = none → Body.DoneInner body used (Body.labelInnerSkips body used)
  | [], used, _ => ⟨rfl, ⟨rfl, fun j s h => by cases h⟩, Grows.refl _ _⟩
  | s :: rest, used, h => by
      obtain ⟨hinner, -, hrest⟩ := Body.skipFault?_cons_eq_none.mp h
      obtain ⟨hfault, hsettled, hgrows⟩ := Statement.done_labelSkips s used hinner
      obtain ⟨hfault', ⟨hlength, heach⟩, hgrows'⟩ :=
        Body.done_labelInnerSkips rest (s.labelSkips used).used hrest
      rw [Body.labelInnerSkips, hfault]
      refine ⟨hfault', ⟨by simp [hlength], fun j t ht => ?_⟩, ?_⟩
      · cases j with
        | zero =>
            obtain rfl := Option.some.inj ht
            exact ⟨_, rfl, hsettled⟩
        | succ j => exact heach ht
      · rw [Body.labels_cons, Body.labels_cons]
        exact hgrows.append hgrows'

end

/-- **Behind the check no fault is left**, and a body is settled. -/
lemma Body.done_labelSkips (body : Body) (used : List Text) (h : skipFault? body = none) :
    body.DoneAll used (labelSkips body used) :=
  done_thenOwn h (done_labelInnerSkips body used h)

namespace Event

/-- Jumps over commands are replaced without a fault, unless the check finds one. -/
theorem settled_labelSkips {e : Event} (h : Body.skipFault? e.body = none) :
    e.labelSkips.fault = none ∧ Body.Settled e.body e.labelSkips.event.body ∧
      ∃ used, Grows e.usedLabels used e.declaredLabels e.labelSkips.event.declaredLabels := by
  obtain ⟨hfault, hsettled, hgrows⟩ := Body.done_labelSkips e.body e.usedLabels h
  rw [labelSkips, h]
  exact ⟨hfault, hsettled, _, hgrows⟩

end Event

end EventScript
