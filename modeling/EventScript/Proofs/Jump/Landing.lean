import EventScript.Proofs.Jump.Faults
import Mathlib.Data.List.Pairwise

/-!
Where jumps land, before they are resolved and after.

* `Event.LandsOn`: the positions a jump lands on, for each kind of target;
* `Event.DeclaredAt`: a label that is declared by exactly one statement, the one at a position;
* `Event.JumpsKept`: what resolving the jumps of an event should keep;
* `Event.jumpsKept_resolveJumps`: it does, if the labels of the event are pairwise distinct.
-/

namespace EventScript

/-! ### Counts of commands -/

namespace Body

/-- The statements passed are determined by the commands they hold. -/
lemma Passes.unique {commands m n : Nat} {rest : Body} (hm : Passes commands rest m)
    (hn : Passes commands rest n) : m = n := by
  rcases Nat.lt_trichotomy m n with hlt | heq | hlt
  · have := hn.least m hlt
    rw [hm.holds] at this
    omega
  · exact heq
  · have := hm.least n hlt
    rw [hn.holds] at this
    omega

/-- Statements that follow others without a new one among them are of the same kinds. -/
lemma Follows.kinds_behind {old new : Body} (h : Follows old new)
    (hno : ∀ ⦃q t⦄, get? new q = some t → ∃ s, get? old q = some s) {q : Position} {s t : Statement}
    (hs : get? old q = some s) (ht : get? new q = some t) :
    (behind new q).map Statement.kind = (behind old q).map Statement.kind := by
  refine List.ext_getElem? fun j => ?_
  rw [List.getElem?_map, List.getElem?_map, getElem?_behind hs, getElem?_behind ht]
  cases hu : get? old (q.forward (j + 1)) with
  | none =>
      cases hv : get? new (q.forward (j + 1)) with
      | none => rfl
      | some v =>
          obtain ⟨u, hu'⟩ := hno hv
          rw [hu] at hu'
          cases hu'
  | some u =>
      obtain ⟨v, hv, hchange⟩ := h hu
      rw [hv, Option.map_some, Option.map_some, Statement.kind, Statement.kind,
        ← Statement.isBlock_shell, ← Statement.isCommand_shell v, hchange.isBlock,
        hchange.isCommand, Statement.isBlock_shell, Statement.isCommand_shell]

end Body

namespace Event

/-! ### Landings -/

/-- A jump lands on a position: the first statement of a node, the place behind the commands it
jumps over, or a statement that declares its label. -/
inductive LandsOn (e : Event) (x : Site) : Position → Prop
  | node {n : Nat} {y : Site} (h : x.statement.target? = some (.node n))
      (hy : e.firstOfNode? n = some y) : LandsOn e x y.position
  | skip {commands passed : Nat} (h : x.statement.target? = some (.skip commands))
      (hp : Body.Passes commands x.behind passed) : LandsOn e x (x.position.forward (passed + 1))
  | label {name : Text} {q : Position} {s : Statement}
      (h : x.statement.target? = some (.label name)) (hs : e.get? q = some s)
      (hname : name ∈ s.declaredLabels) : LandsOn e x q

/-- A label is declared at a position, and nowhere else. -/
structure DeclaredAt (e : Event) (name : Text) (q : Position) : Prop where
  here : ∃ s, e.get? q = some s ∧ name ∈ s.declaredLabels
  only : ∀ ⦃p s⦄, e.get? p = some s → name ∈ s.declaredLabels → p = q

/-- What resolving the jumps of `e` should keep in `e'`. -/
structure JumpsKept (e e' : Event) : Prop where
  /-- Every statement stands at its position again, with a label or a target more at most. -/
  follows : Body.Follows e.body e'.body
  /-- The labels are pairwise distinct. -/
  distinct : e'.declaredLabels.Nodup
  /-- Every jump goes to a label. -/
  resolved : ∀ ⦃q s⦄, e'.get? q = some s → s.target?.isSome → ∃ name, s.target? = some (.label name)
  /-- The label of a jump is that of the statement at the position on which the jump landed before.
  A position at which no statement stood is now that of one that does nothing, at the end of its
  body. -/
  lands : ∀ ⦃x q⦄, x ∈ e.sites → e.LandsOn x q → ∃ s name, e'.get? x.position = some s ∧
    s.target? = some (.label name) ∧ e'.DeclaredAt name q ∧
      (e.get? q = none → ∃ u, e'.get? q = some u ∧ u.isNoOp = true ∧ Body.behind e'.body q = [])
  /-- A jump that landed nowhere keeps its label, which is still declared by no statement. -/
  nowhere : ∀ ⦃x⦄, x ∈ e.sites → x.statement.target?.isSome → (∀ q, ¬ e.LandsOn x q) →
    ∃ s name, x.statement.target? = some (.label name) ∧ e'.get? x.position = some s ∧
      s.target? = some (.label name) ∧ name ∉ e'.declaredLabels

/-- If the labels are pairwise distinct, no two statements declare the same one. -/
lemma declaredAt_of_nodup {e : Event} (h : e.declaredLabels.Nodup) {q : Position} {s : Statement}
    {name : Text} (hs : e.get? q = some s) (hname : name ∈ s.declaredLabels) :
    e.DeclaredAt name q where
  here := ⟨s, hs, hname⟩
  only p t ht hname' := by
    by_contra hne
    rw [declaredLabels, Body.walk_eq_map_sites, List.flatMap_map, List.nodup_flatMap] at h
    have : Std.Symm (Function.onFun List.Disjoint fun x : Site => x.statement.declaredLabels) :=
      ⟨fun _ _ hxy _ hx hy => hxy hy hx⟩
    have hdisjoint := h.2.forall (Body.exists_site ht) (Body.exists_site hs)
      (fun heq => hne (congrArg Site.position heq))
    exact hdisjoint hname' hname

/-! ### The two steps one after the other -/

section Steps

variable {e e₁ e₂ : Event} {x : Site}

/-- Each step keeps the statements at their places, so both do. -/
lemma NodesLabelled.follows_settled (hn : e.NodesLabelled e₁)
    (hs : Body.Settled e₁.body e₂.body) : Body.Follows e.body e₂.body :=
  hn.follows.trans hs.follows

/-- A label that a statement of the event bears after the first step, it bears after the second. -/
lemma exists_declared_of_head? (hs : Body.Settled e₁.body e₂.body) {q : Position} {u : Statement}
    {name : Text} (hu : e₁.get? q = some u) (hhead : u.tags.labels.head? = some name) :
    ∃ v, e₂.get? q = some v ∧ name ∈ v.declaredLabels := by
  obtain ⟨v, hv, hchange⟩ := hs.follows hu
  rw [← Statement.tags_shell] at hhead
  have hhead' := hchange.head?_labels hhead
  rw [Statement.tags_shell] at hhead'
  exact ⟨v, hv, List.mem_append_left _ (List.mem_of_mem_head? hhead')⟩

/-- A jump to a node, after both steps. -/
lemma lands_node (hn : e.NodesLabelled e₁) (hs : Body.Settled e₁.body e₂.body) (hx : x ∈ e.sites)
    {n : Nat} (ht : x.statement.target? = some (.node n)) :
    ∃ y t u name, e.firstOfNode? n = some y ∧ e₂.get? x.position = some t ∧
      t.target? = some (.label name) ∧ e₂.get? y.position = some u ∧ name ∈ u.declaredLabels := by
  obtain ⟨t, y, u, name, ht', hname, hy, hu, hhead⟩ :=
    hn.lands (Body.mem_sites_iff.mp hx).1 (Statement.jumpNode?_eq_some.mpr ht)
  rw [Statement.jumpLabel?_eq_some] at hname
  obtain ⟨t₂, ht₂, -⟩ := hs.follows ht'
  have htarget := hs.others ht' (by rw [Statement.jumpSkip?, hname]) ht₂
  obtain ⟨v, hv, hdeclared⟩ := exists_declared_of_head? hs hu hhead
  exact ⟨y, t₂, v, name, hy, ht₂, htarget.trans hname, hv, hdeclared⟩

/-- What stands at the place of another jump after the first step. -/
lemma exists_untouched (hn : e.NodesLabelled e₁) (hx : x ∈ e.sites)
    (ht : x.statement.jumpNode? = none) :
    ∃ t, e₁.get? x.position = some t ∧ t.target? = x.statement.target? := by
  obtain ⟨hget, -⟩ := Body.mem_sites_iff.mp hx
  obtain ⟨t, ht₁, -⟩ := hn.follows hget
  exact ⟨t, ht₁, hn.others hget ht ht₁⟩

/-- A jump over commands, after both steps. -/
lemma lands_skip (hn : e.NodesLabelled e₁) (hs : Body.Settled e₁.body e₂.body) (hx : x ∈ e.sites)
    {commands : Nat} (ht : x.statement.target? = some (.skip commands)) :
    ∃ passed t u name, Body.Passes commands x.behind passed ∧ e₂.get? x.position = some t ∧
      t.target? = some (.label name) ∧ e₂.get? (x.position.forward (passed + 1)) = some u ∧
        name ∈ u.declaredLabels := by
  obtain ⟨hget, hbehind⟩ := Body.mem_sites_iff.mp hx
  obtain ⟨t₁, ht₁, htarget⟩ := exists_untouched hn hx (by rw [Statement.jumpNode?, ht])
  obtain ⟨passed, t, u, name, hd, ht₂, hname, hu, hhead⟩ :=
    hs.lands ht₁ (Statement.jumpSkip?_eq_some.mpr (htarget.trans ht))
  obtain ⟨v, hv, hdeclared⟩ : ∃ v, e₂.get? (x.position.forward (passed + 1)) = some v ∧
      name ∈ v.declaredLabels :=
    ⟨u, hu, List.mem_append_left _ (List.mem_of_mem_head? hhead)⟩
  have hkinds := hn.follows.kinds_behind hn.no_more hget ht₁
  rw [hbehind] at hkinds
  have hd' : Body.distance commands x.behind = .ok passed :=
    Body.distance_of_kinds_prefix ⟨[], by rw [hkinds, List.append_nil]⟩ commands hd
  exact ⟨passed, t, v, name, Body.passes_of_distance commands _ hd', ht₂,
    Statement.jumpLabel?_eq_some.mp hname, hv, hdeclared⟩

/-- A jump to a label, after both steps. -/
lemma keeps_label (hn : e.NodesLabelled e₁) (hs : Body.Settled e₁.body e₂.body) (hx : x ∈ e.sites)
    {name : Text} (ht : x.statement.target? = some (.label name)) :
    ∃ t, e₂.get? x.position = some t ∧ t.target? = some (.label name) := by
  obtain ⟨t₁, ht₁, htarget⟩ := exists_untouched hn hx (by rw [Statement.jumpNode?, ht])
  obtain ⟨t₂, ht₂, -⟩ := hs.follows ht₁
  rw [ht] at htarget
  have hsame := hs.others ht₁ (by rw [Statement.jumpSkip?, htarget]) ht₂
  exact ⟨t₂, ht₂, hsame.trans htarget⟩

/-- A position at which no statement stood. -/
lemma added_of_none (hn : e.NodesLabelled e₁) (hs : Body.Settled e₁.body e₂.body) {q : Position}
    {u : Statement} (hu : e₂.get? q = some u) (hnone : e.get? q = none) :
    (∃ name, u = .bearer name) ∧ Body.behind e₂.body q = [] := by
  refine hs.added hu ?_
  cases ht : Body.get? e₁.body q with
  | none => rfl
  | some t =>
      obtain ⟨s, hs⟩ := hn.no_more ht
      rw [hnone] at hs
      cases hs

/-- Behind both steps every jump goes to a label. -/
lemma exists_label_of_steps (hn : e.NodesLabelled e₁) (hs : Body.Settled e₁.body e₂.body)
    {q : Position} {s : Statement} (hq : e₂.get? q = some s) (hjumps : s.target?.isSome) :
    ∃ name, s.target? = some (.label name) := by
  cases hq₀ : e.get? q with
  | none =>
      obtain ⟨⟨name, rfl⟩, -⟩ := added_of_none hn hs hq hq₀
      cases hjumps
  | some s₀ =>
      have hx := Body.exists_site hq₀
      obtain ⟨s', hs', hchange⟩ := hn.follows_settled hs hq₀
      obtain rfl := Option.some.inj (hq.symm.trans hs')
      have hjumps₀ := hchange.isSome_target?
      rw [Statement.target?_shell, Statement.target?_shell, hjumps] at hjumps₀
      obtain ⟨target, htarget⟩ := Option.isSome_iff_exists.mp hjumps₀.symm
      cases target with
      | label name =>
          obtain ⟨t, ht, hname⟩ := keeps_label hn hs hx htarget
          exact ⟨name, by rw [← hname, Option.some.inj (hq.symm.trans ht)]⟩
      | node n =>
          obtain ⟨-, t, -, name, -, ht, hname, -⟩ := lands_node hn hs hx htarget
          exact ⟨name, by rw [← hname, Option.some.inj (hq.symm.trans ht)]⟩
      | skip commands =>
          obtain ⟨-, t, -, name, -, ht, hname, -⟩ := lands_skip hn hs hx htarget
          exact ⟨name, by rw [← hname, Option.some.inj (hq.symm.trans ht)]⟩

/-- No other target is left. -/
lemma eq_label_of_steps (hn : e.NodesLabelled e₁) (hs : Body.Settled e₁.body e₂.body)
    {q : Position} {s : Statement} {target : Target} (hq : e₂.get? q = some s)
    (htarget : s.target? = some target) : ∃ name, target = .label name := by
  obtain ⟨name, hname⟩ := exists_label_of_steps hn hs hq (Option.isSome_of_eq_some htarget)
  exact ⟨name, Option.some.inj (htarget.symm.trans hname)⟩

/-- Both steps put together keep what a jump is about, if the labels stay pairwise distinct and
those in use before are declared by no new statement. -/
lemma jumpsKept_of_steps (hn : e.NodesLabelled e₁) (hs : Body.Settled e₁.body e₂.body)
    (hdistinct : e₂.declaredLabels.Nodup)
    (hold : ∀ ⦃name⦄, name ∈ e.usedLabels → name ∈ e₂.declaredLabels → name ∈ e.declaredLabels) :
    e.JumpsKept e₂ := by
  refine ⟨hn.follows_settled hs, hdistinct, fun q s => exists_label_of_steps hn hs,
    fun x q hx hlands => ?_, fun x hx hjumps hno => ?_⟩
  · have hend : ∀ {u : Statement}, e₂.get? q = some u → e.get? q = none →
        ∃ u, e₂.get? q = some u ∧ u.isNoOp = true ∧ Body.behind e₂.body q = [] :=
      fun hu hnone => by
        obtain ⟨⟨name, rfl⟩, hbehind⟩ := added_of_none hn hs hu hnone
        exact ⟨_, hu, rfl, hbehind⟩
    cases hlands with
    | @node n y htarget hy =>
        obtain ⟨y', t, u, name, hy', ht, hname, hu, hdeclared⟩ := lands_node hn hs hx htarget
        obtain rfl := Option.some.inj (hy.symm.trans hy')
        exact ⟨t, name, ht, hname, declaredAt_of_nodup hdistinct hu hdeclared, hend hu⟩
    | @skip commands passed htarget hp =>
        obtain ⟨passed', t, u, name, hp', ht, hname, hu, hdeclared⟩ := lands_skip hn hs hx htarget
        obtain rfl := hp.unique hp'
        exact ⟨t, name, ht, hname, declaredAt_of_nodup hdistinct hu hdeclared, hend hu⟩
    | @label name q s htarget hq hdeclared =>
        obtain ⟨t, ht, hname⟩ := keeps_label hn hs hx htarget
        obtain ⟨u, hu, hchange⟩ := hn.follows_settled hs hq
        have hdeclared' : name ∈ u.declaredLabels := by
          rw [← Statement.declaredLabels_shell]
          exact hchange.mem_declaredLabels (by rwa [Statement.declaredLabels_shell])
        exact ⟨t, name, ht, hname, declaredAt_of_nodup hdistinct hu hdeclared', hend hu⟩
  · obtain ⟨target, htarget⟩ := Option.isSome_iff_exists.mp hjumps
    cases target with
    | label name =>
        obtain ⟨t, ht, hname⟩ := keeps_label hn hs hx htarget
        refine ⟨t, name, htarget, ht, hname, fun hdeclared => ?_⟩
        have hused : name ∈ e.usedLabels := mem_usedLabels_iff.mpr
          (Or.inr ⟨_, _, (Body.mem_sites_iff.mp hx).1, Statement.jumpLabel?_eq_some.mpr htarget⟩)
        obtain ⟨q, s, hq, hmem⟩ := mem_declaredLabels_iff.mp (hold hused hdeclared)
        exact hno q (.label htarget hq hmem)
    | node n =>
        obtain ⟨y, -, -, -, hy, -⟩ := lands_node hn hs hx htarget
        exact absurd (.node htarget hy) (hno _)
    | skip commands =>
        obtain ⟨passed, -, -, -, hp, -⟩ := lands_skip hn hs hx htarget
        exact absurd (.skip htarget hp) (hno _)

end Steps

/-- The two steps of resolving the jumps of an event, if there is no fault. -/
lemma exists_steps {e : Event} (h : e.resolveJumps.fault = none) :
    e.labelNodes.fault = none ∧ Body.skipFault? e.labelNodes.event.body = none ∧
      e.resolveJumps = e.labelNodes.event.labelSkips := by
  by_cases hfault : e.labelNodes.fault = none
  · have heq := e.resolveJumps_of_none hfault
    refine ⟨hfault, ?_, heq⟩
    rw [heq] at h
    cases hskip : Body.skipFault? e.labelNodes.event.body with
    | none => rfl
    | some fault =>
        rw [labelSkips, hskip] at h
        cases h
  · rw [e.resolveJumps_of_fault hfault] at h
    exact absurd h hfault

/-- The event between the two steps, and how the labels grow over both. -/
lemma exists_settled_steps {e : Event} (h : e.resolveJumps.fault = none) :
    ∃ e₁ used, e.NodesLabelled e₁ ∧ Body.Settled e₁.body e.resolveJumps.event.body ∧
      Grows e.usedLabels used e.declaredLabels e.resolveJumps.event.declaredLabels := by
  obtain ⟨hfault, hskip, heq⟩ := exists_steps h
  have hn := nodesLabelled_labelNodes hfault
  obtain ⟨-, hs, used, hgrows⟩ := settled_labelSkips hskip
  rw [heq]
  exact ⟨_, used, hn, hs, hn.grows.trans hgrows⟩

/-- **Resolving jumps keeps where they land**, if the labels of the event are pairwise distinct. -/
theorem jumpsKept_resolveJumps {e : Event} (hdistinct : e.declaredLabels.Nodup)
    (h : e.resolveJumps.fault = none) : e.JumpsKept e.resolveJumps.event := by
  obtain ⟨hfault, hskip, heq⟩ := exists_steps h
  have hn := nodesLabelled_labelNodes hfault
  obtain ⟨-, hs, used, hgrows⟩ := settled_labelSkips hskip
  rw [heq]
  refine jumpsKept_of_steps hn hs ?_ fun name hused hdeclared => ?_
  · exact hgrows.nodup (hn.grows.nodup hdistinct fun _ => mem_usedLabels_of_mem_declaredLabels)
      fun _ => mem_usedLabels_of_mem_declaredLabels
  · exact hn.grows.mem_of_mem (hgrows.mem_of_mem hdeclared (hn.grows.mono hused)) hused

/-- Jumps of every kind: to a node behind a loop, to the end of the body of that loop, and to a
label. -/
def crossing : Event where
  body := [
    .simple {} (.jump (.node 7) .always),
    .loop {} "for".toList [
      .simple {} (.jump (.skip 1) .always),
      .simple {} (.command ⟨none, "Act".toList, [], none⟩)],
    .simple { node := some 7 } (.jump (.label "out".toList) .always),
    .simple { labels := ["out".toList] } (.finish .stop .always)]

/-- The jumps of `crossing` land where they landed. -/
theorem jumpsKept_crossing :
    crossing.declaredLabels.Nodup ∧ crossing.resolveJumps.fault = none ∧
      crossing.JumpsKept crossing.resolveJumps.event :=
  ⟨by decide, by decide, jumpsKept_resolveJumps (by decide) (by decide)⟩

end Event

end EventScript
