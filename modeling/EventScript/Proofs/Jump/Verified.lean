import EventScript.Proofs.Jump.Landing
import EventScript.Proofs.Reference.Dangling

/-!
The check of references behind resolved jumps.

Resolving the jumps of an event gives out labels, and none of them may hide that something else
dangles, nor may a jump dangle that was given one.

* `Event.dangles_iff_of_steps`: behind both steps the same dangles as before, but for the jumps
  without a label;
* `Event.ReferencesKept`, `Event.referencesKept_resolveJumps`: so the check passes afterwards
  exactly if the event had all that it referred to by a name, and else it finds what dangled before.
-/

namespace EventScript

namespace Body

/-- What a statement reads and assigns, its successor does. -/
lemma Follows.exists_same {old new : Body} (h : Follows old new) {q : Position} {s : Statement}
    (hs : get? old q = some s) : ∃ t, get? new q = some t ∧ t.condition? = s.condition? ∧
      t.assignedVariable? = s.assignedVariable? ∧
        ∀ ⦃name⦄, name ∈ s.declaredLabels → name ∈ t.declaredLabels := by
  obtain ⟨t, ht, hchange⟩ := h hs
  refine ⟨t, ht, ?_, ?_, fun name hname => ?_⟩
  · rw [← Statement.condition?_shell, hchange.condition?, Statement.condition?_shell]
  · rw [← Statement.assignedVariable?_shell, hchange.assignedVariable?,
      Statement.assignedVariable?_shell]
  · rw [← Statement.declaredLabels_shell]
    exact hchange.mem_declaredLabels (by rwa [Statement.declaredLabels_shell])

end Body

namespace Event

section Steps

variable {e e₁ e₂ : Event}

/-- What stands behind both steps stood there before, or it bears a label for a jump. -/
lemma exists_same_of_steps (hn : e.NodesLabelled e₁) (hs : Body.Settled e₁.body e₂.body)
    {q : Position} {t : Statement} (ht : e₂.get? q = some t) :
    (∃ name, t = .bearer name) ∨ ∃ s, e.get? q = some s ∧ t.condition? = s.condition? ∧
      t.assignedVariable? = s.assignedVariable? := by
  cases hq : e.get? q with
  | none => exact Or.inl (added_of_none hn hs ht hq).1
  | some s =>
      obtain ⟨t', ht', hcondition, hvariable, -⟩ := (hn.follows_settled hs).exists_same hq
      obtain rfl := Option.some.inj (ht.symm.trans ht')
      exact Or.inr ⟨s, rfl, hcondition, hvariable⟩

/-- A jump behind both steps went to its label before, or its label is declared. -/
lemma target?_or_declared_of_steps (hn : e.NodesLabelled e₁) (hs : Body.Settled e₁.body e₂.body)
    {q : Position} {t : Statement} {name : Text} (ht : e₂.get? q = some t)
    (htarget : t.target? = some (.label name)) :
    (∃ s, e.get? q = some s ∧ s.target? = some (.label name)) ∨
      ∃ p u, e₂.get? p = some u ∧ name ∈ u.declaredLabels := by
  cases hq : e.get? q with
  | none =>
      obtain ⟨⟨label, rfl⟩, -⟩ := added_of_none hn hs ht hq
      cases htarget
  | some s =>
      have hx := Body.exists_site hq
      obtain ⟨t', ht', hchange⟩ := hn.follows_settled hs hq
      obtain rfl := Option.some.inj (ht.symm.trans ht')
      have hjumps := hchange.isSome_target?
      rw [Statement.target?_shell, Statement.target?_shell, htarget] at hjumps
      obtain ⟨target, hold⟩ := Option.isSome_iff_exists.mp hjumps.symm
      cases target with
      | label label =>
          obtain ⟨t', ht', hlabel⟩ := keeps_label hn hs hx hold
          obtain rfl := Option.some.inj (ht.symm.trans ht')
          exact Or.inl ⟨s, rfl, by rw [hold, ← hlabel, htarget]⟩
      | node n =>
          obtain ⟨y, t', u, label, -, ht', hlabel, hu, hdeclared⟩ := lands_node hn hs hx hold
          obtain rfl := Option.some.inj (ht.symm.trans ht')
          obtain rfl : name = label := by simpa [htarget] using hlabel
          exact Or.inr ⟨_, u, hu, hdeclared⟩
      | skip commands =>
          obtain ⟨passed, t', u, label, -, ht', hlabel, hu, hdeclared⟩ := lands_skip hn hs hx hold
          obtain rfl := Option.some.inj (ht.symm.trans ht')
          obtain rfl : name = label := by simpa [htarget] using hlabel
          exact Or.inr ⟨_, u, hu, hdeclared⟩

/-- **Behind both steps the same dangles as before**, but for the jumps without a label, if the
labels in use before are declared by no new statement. -/
lemma dangles_iff_of_steps (hn : e.NodesLabelled e₁) (hs : Body.Settled e₁.body e₂.body)
    (hold : ∀ ⦃name⦄, name ∈ e.usedLabels → name ∈ e₂.declaredLabels → name ∈ e.declaredLabels)
    (fault : Fault) :
    e₂.Dangles fault ↔ e.Dangles fault ∧ ∀ text, fault ≠ .transientJump text := by
  have hfollows := hn.follows_settled hs
  constructor
  · intro h
    cases h with
    | @label q t name ht htarget hnone =>
        rcases target?_or_declared_of_steps hn hs ht htarget with
          ⟨s, hq, hlabel⟩ | ⟨p, u, hu, hname⟩
        · refine ⟨.label hq hlabel fun p u hu hname => ?_, fun text h => by cases h⟩
          obtain ⟨v, hv, -, -, hdeclared⟩ := hfollows.exists_same hu
          exact hnone p v hv (hdeclared hname)
        · exact absurd hname (hnone p u hu)
    | @transient q t target ht htarget hlabel =>
        obtain ⟨name, rfl⟩ := eq_label_of_steps hn hs ht htarget
        cases hlabel
    | @read q t c name ht hc hreads hnone =>
        refine ⟨?_, fun text h => by cases h⟩
        rcases exists_same_of_steps hn hs ht with ⟨label, rfl⟩ | ⟨s, hq, hcondition, -⟩
        · cases hc
        · refine .read hq (hcondition.symm.trans hc) hreads fun p u hu hassigned => ?_
          obtain ⟨v, hv, -, hvariable, -⟩ := hfollows.exists_same hu
          exact hnone p v hv (hvariable.trans hassigned)
  · rintro ⟨h, hno⟩
    cases h with
    | @label q s name hq htarget hnone =>
        obtain ⟨t, ht, hlabel⟩ := keeps_label hn hs (Body.exists_site hq) htarget
        refine .label ht hlabel fun p u hu hname => ?_
        have hused : name ∈ e.usedLabels :=
          mem_usedLabels_iff.mpr (Or.inr ⟨q, s, hq, Statement.jumpLabel?_eq_some.mpr htarget⟩)
        obtain ⟨p', s', hs', hname'⟩ :=
          mem_declaredLabels_iff.mp (hold hused (mem_declaredLabels_iff.mpr ⟨p, u, hu, hname⟩))
        exact hnone p' s' hs' hname'
    | transient => exact absurd rfl (hno _)
    | @read q s c name hq hc hreads hnone =>
        obtain ⟨t, ht, hcondition, -⟩ := hfollows.exists_same hq
        refine .read ht (hcondition.trans hc) hreads fun p u hu hassigned => ?_
        rcases exists_same_of_steps hn hs hu with ⟨label, rfl⟩ | ⟨s', hs', -, hvariable⟩
        · cases hassigned
        · exact hnone p s' hs' (hvariable.symm.trans hassigned)

end Steps

/-- What the check of references says about `e'`, into which the jumps of `e` were resolved. -/
structure ReferencesKept (e e' : Event) : Prop where
  /-- The check passes exactly if `e` has all that it refers to by a name. -/
  passes : e'.referenceFault? = none ↔ e.RefersWithin
  /-- What the check finds otherwise dangled in `e` already. -/
  finds : ∀ ⦃fault⦄, e'.referenceFault? = some fault →
    e.Dangles fault ∧ ∀ text, fault ≠ .transientJump text
  /-- Every jump goes to a label. -/
  resolved : ∀ ⦃q t target⦄, e'.get? q = some t → t.target? = some target →
    ∃ name, target = .label name
  /-- The label of a jump that had none in `e` is declared. -/
  lands : ∀ ⦃q s target t name⦄, e.get? q = some s → s.target? = some target →
    target.label? = none → e'.get? q = some t → t.target? = some (.label name) →
      ∃ p u, e'.get? p = some u ∧ name ∈ u.declaredLabels

/-- **Behind resolved jumps the check finds only what dangled before.** -/
theorem referencesKept_resolveJumps {e : Event} (h : e.resolveJumps.fault = none) :
    e.ReferencesKept e.resolveJumps.event := by
  obtain ⟨e₁, used, hn, hs, hgrows⟩ := exists_settled_steps h
  have hdangles := dangles_iff_of_steps hn hs fun name hused hdeclared =>
    hgrows.mem_of_mem hdeclared hused
  refine ⟨?_, fun fault hfault => ?_, fun q t target => eq_label_of_steps hn hs,
    fun q s target t name hq hold hnone ht htarget => ?_⟩
  · rw [referenceFault?_eq_none_iff, refersWithin_iff]
    refine forall_congr' fun fault => ?_
    rw [hdangles fault, not_and]
    refine imp_congr_right fun _ => ?_
    rw [not_forall]
    exact exists_congr fun text => not_not
  · exact (hdangles fault).mp (dangles_of_referenceFault? hfault)
  · rcases target?_or_declared_of_steps hn hs ht htarget with ⟨s', hs', hlabel⟩ | hdeclared
    · obtain rfl := Option.some.inj (hq.symm.trans hs')
      obtain rfl := Option.some.inj (hold.symm.trans hlabel)
      cases hnone
    · exact hdeclared

/-- A jump to a node whose wished label is the one that another jump misses, in front of a wait for
a condition variable that is assigned. -/
def dangling : Event where
  body := [
    .simple {} (.jump (.node 3) .always),
    .simple {} (.jump (.label "end".toList) .always),
    .simple {} (.assign 0 (some "open".toList) .store .always),
    .simple {} (.wait (.atom (.read 0 false (some "open".toList)) false []) false),
    .simple { node := some 3, labelHint := some "end".toList } (.finish .stop .always)]

/-- The label of the one jump in `dangling` is not that of the other, which dangles as before. -/
theorem referencesKept_dangling :
    dangling.resolveJumps.fault = none ∧ dangling.ReferencesKept dangling.resolveJumps.event ∧
      dangling.resolveJumps.event.referenceFault? = some (.unresolvedLabel "end".toList) :=
  ⟨by decide, referencesKept_resolveJumps (by decide), by decide⟩

end Event

end EventScript
