import EventScript.Reference
import EventScript.Proofs.Statement.Shell

/-!
What the check of references is about.

The check visits the statements of an event and the conditions in them, and stops at the first
reference that dangles. Here dangling references are described without a visit.

* `Condition.Reads`: a condition reads a variable, itself or in one of its parts;
* `Event.Dangles`: a jump or a read that has the given fault, anywhere in the event;
* `Event.referenceFault?_eq_none_iff`, `Event.dangles_of_referenceFault?`: the check passes exactly
  if nothing dangles, and it finds nothing else;
* `Statement.SameReferences`, `Event.referenceFault?_eq_none_congr`: the check looks at nothing but
  the references;
* `Event.RefersWithin`: what jumps to labels and reads refer to is there. Then nothing dangles but
  jumps that have no label yet (`Event.refersWithin_iff`).
-/

namespace EventScript

/-! ### Reads of variables -/

namespace Condition

/-- A condition reads a condition variable, itself or in one of its parts. -/
inductive Reads (name : Text) : Condition → Prop
  | here (group : Int) (compiled negated : Bool) (remarks : List Remark) :
      Reads name (.atom (.read group compiled (some name)) negated remarks)
  | part {c : Condition} {parts : List Condition} (op : Connective) (negated : Bool)
      (remarks : List Remark) (hc : c ∈ parts) (h : Reads name c) :
      Reads name (.combine op parts negated remarks)

lemma readName?_eq_some_iff {name : Text} {a : Atom} {negated : Bool} {remarks : List Remark} :
    (atom a negated remarks).readName? = some name ↔ (atom a negated remarks).Reads name := by
  constructor
  · intro h
    cases a with
    | read group compiled name' =>
        obtain rfl : name' = some name := h
        exact .here group compiled negated remarks
    | compare relation left right => cases h
    | query q => cases h
    | unreadable message => cases h
  · rintro ⟨⟩
    rfl

lemma reads_combine_iff {name : Text} {op : Connective} {parts : List Condition} {negated : Bool}
    {remarks : List Remark} :
    (combine op parts negated remarks).Reads name ↔ ∃ c ∈ parts, c.Reads name := by
  constructor
  · rintro (_ | ⟨-, -, -, hc, h⟩)
    exact ⟨_, hc, h⟩
  · rintro ⟨c, hc, h⟩
    exact .part op negated remarks hc h

mutual

/-- The reads in a condition are those of the conditions in its visit. -/
lemma exists_mem_walk_iff (name : Text) : ∀ c : Condition,
    (∃ d ∈ c.walk .forward, d.readName? = some name) ↔ c.Reads name
  | atom a negated remarks => by
      rw [walk, ← readName?_eq_some_iff]
      simp
  | combine op parts negated remarks => by
      have hparts := exists_mem_walkAll_iff name parts
      have hnone : (combine op parts negated remarks).readName? = none := rfl
      rw [walk, reads_combine_iff, ← hparts]
      simp [or_and_right, exists_or, hnone]

/-- The reads in the parts of a combination. -/
lemma exists_mem_walkAll_iff (name : Text) : ∀ cs : List Condition,
    (∃ d ∈ walkAll .forward cs, d.readName? = some name) ↔ ∃ c ∈ cs, c.Reads name
  | [] => by simp [walkAll]
  | c :: cs => by
      have hc := exists_mem_walk_iff name c
      have hcs := exists_mem_walkAll_iff name cs
      rw [walkAll]
      simp [or_and_right, exists_or, hc, hcs]

end

/-- The fault of a condition is that of a variable which it reads and nothing assigns. -/
lemma exists_of_variableFault? {assigned : List Text} {c : Condition} {fault : Fault}
    (h : c.variableFault? assigned = some fault) :
    ∃ name, c.Reads name ∧ name ∉ assigned ∧ fault = .unassignedVariable name := by
  obtain ⟨d, hd, hfault⟩ := List.exists_of_findSome?_eq_some h
  obtain ⟨name, hname, hfault⟩ := Option.bind_eq_some_iff.mp hfault
  simp only [List.contains_iff_mem] at hfault
  split at hfault
  · cases hfault
  · next hnot =>
      exact ⟨name, (exists_mem_walk_iff name c).mp ⟨d, hd, hname⟩, hnot,
        (Option.some.inj hfault).symm⟩

/-- A condition is without fault exactly if all variables that it reads are assigned. -/
lemma variableFault?_eq_none_iff {assigned : List Text} {c : Condition} :
    c.variableFault? assigned = none ↔ ∀ name, c.Reads name → name ∈ assigned := by
  constructor
  · intro h name hreads
    obtain ⟨d, hd, hname⟩ := (exists_mem_walk_iff name c).mpr hreads
    have hnone := List.findSome?_eq_none_iff.mp h d hd
    rw [hname, Option.bind_some] at hnone
    simp only [List.contains_iff_mem] at hnone
    by_contra hnot
    rw [if_neg hnot] at hnone
    cases hnone
  · intro h
    cases hfault : c.variableFault? assigned with
    | none => rfl
    | some fault =>
        obtain ⟨name, hreads, hnot, -⟩ := exists_of_variableFault? hfault
        exact absurd (h name hreads) hnot

end Condition

/-! ### Dangling references -/

/-- A reference of an event has a fault: a jump to a label that no statement declares, a jump
without a label, or a read of a condition variable that no statement assigns. -/
inductive Event.Dangles (e : Event) : Fault → Prop
  | label {q : Position} {s : Statement} {name : Text} (hs : e.get? q = some s)
      (ht : s.target? = some (.label name))
      (hnone : ∀ p t, e.get? p = some t → name ∉ t.declaredLabels) :
      Dangles e (.unresolvedLabel name)
  | transient {q : Position} {s : Statement} {target : Target} (hs : e.get? q = some s)
      (ht : s.target? = some target) (hlabel : target.label? = none) :
      Dangles e (.transientJump s.text)
  | read {q : Position} {s : Statement} {c : Condition} {name : Text} (hs : e.get? q = some s)
      (hc : s.condition? = some c) (hreads : c.Reads name)
      (hnone : ∀ p t, e.get? p = some t → t.assignedVariable? ≠ some name) :
      Dangles e (.unassignedVariable name)

namespace Event

variable {e : Event}

lemma mem_assignedVariables_iff {name : Text} :
    name ∈ e.assignedVariables ↔ ∃ p t, e.get? p = some t ∧ t.assignedVariable? = some name := by
  rw [assignedVariables, List.mem_filterMap]
  constructor
  · rintro ⟨t, ht, hname⟩
    obtain ⟨p, hp⟩ := Body.mem_walk_iff.mp ht
    exact ⟨p, t, hp, hname⟩
  · rintro ⟨p, t, hp, hname⟩
    exact ⟨t, Body.mem_walk_iff.mpr ⟨p, hp⟩, hname⟩

/-- The fault of the jump of a statement dangles. -/
lemma dangles_of_jumpFault? {q : Position} {s : Statement} (hs : e.get? q = some s) {fault : Fault}
    (h : s.jumpFault? e.declaredLabels = some fault) : e.Dangles fault := by
  rw [Statement.jumpFault?] at h
  cases ht : s.target? with
  | none =>
      rw [ht] at h
      cases h
  | some target =>
      rw [ht] at h
      cases target with
      | label name =>
          simp only [List.contains_iff_mem] at h
          split at h
          · cases h
          · next hnot =>
              obtain rfl := Option.some.inj h
              exact .label hs ht fun p t hp hname =>
                hnot (mem_declaredLabels_iff.mpr ⟨p, t, hp, hname⟩)
      | node n =>
          obtain rfl := Option.some.inj h
          exact .transient hs ht rfl
      | skip commands =>
          obtain rfl := Option.some.inj h
          exact .transient hs ht rfl

/-- The fault of the condition of a statement dangles. -/
lemma dangles_of_variableFault? {q : Position} {s : Statement} (hs : e.get? q = some s)
    {c : Condition} (hc : s.condition? = some c) {fault : Fault}
    (h : c.variableFault? e.assignedVariables = some fault) : e.Dangles fault := by
  obtain ⟨name, hreads, hnot, rfl⟩ := Condition.exists_of_variableFault? h
  exact .read hs hc hreads fun p t hp hname =>
    hnot (mem_assignedVariables_iff.mpr ⟨p, t, hp, hname⟩)

/-- **The check finds what dangles.** -/
theorem dangles_of_referenceFault? {fault : Fault} (h : e.referenceFault? = some fault) :
    e.Dangles fault := by
  obtain ⟨s, hs, hfault⟩ := List.exists_of_findSome?_eq_some h
  obtain ⟨q, hq⟩ := Body.mem_walk_iff.mp hs
  rw [Statement.referenceFault?, Option.or_eq_some_iff] at hfault
  rcases hfault with hjump | ⟨-, hvariable⟩
  · exact dangles_of_jumpFault? hq hjump
  · obtain ⟨c, hc, hvariable⟩ := Option.bind_eq_some_iff.mp hvariable
    exact dangles_of_variableFault? hq hc hvariable

/-- A dangling reference does not pass the check. -/
lemma referenceFault?_ne_none_of_dangles {fault : Fault} (h : e.Dangles fault) :
    e.referenceFault? ≠ none := by
  intro hnone
  have hall : ∀ {q s}, e.get? q = some s → s.jumpFault? e.declaredLabels = none ∧
      s.condition?.bind (Condition.variableFault? e.assignedVariables) = none := by
    intro q s hs
    have := List.findSome?_eq_none_iff.mp hnone s (Body.mem_walk_iff.mpr ⟨q, hs⟩)
    rwa [Statement.referenceFault?, Option.or_eq_none_iff] at this
  cases h with
  | @label q s name hs ht hno =>
      have hjump := (hall hs).1
      rw [Statement.jumpFault?, ht] at hjump
      simp only [List.contains_iff_mem] at hjump
      split at hjump
      · next hmem =>
          obtain ⟨p, t, hp, hname⟩ := mem_declaredLabels_iff.mp hmem
          exact hno p t hp hname
      · cases hjump
  | @transient q s target hs ht hlabel =>
      have hjump := (hall hs).1
      rw [Statement.jumpFault?, ht] at hjump
      cases target with
      | label name => cases hlabel
      | node n => cases hjump
      | skip commands => cases hjump
  | @read q s c name hs hc hreads hno =>
      have hvariable := (hall hs).2
      rw [hc, Option.bind_some, Condition.variableFault?_eq_none_iff] at hvariable
      obtain ⟨p, t, hp, hname⟩ := mem_assignedVariables_iff.mp (hvariable name hreads)
      exact hno p t hp hname

/-- **The check passes exactly if nothing dangles.** -/
theorem referenceFault?_eq_none_iff : e.referenceFault? = none ↔ ∀ fault, ¬ e.Dangles fault := by
  constructor
  · intro h fault hdangles
    exact referenceFault?_ne_none_of_dangles hdangles h
  · intro h
    cases hfault : e.referenceFault? with
    | none => rfl
    | some fault => exact absurd (dangles_of_referenceFault? hfault) (h fault)

/-- An event has all that it refers to by a name: a statement for every label that it jumps to, and
an assignment of every condition variable that it reads. -/
structure RefersWithin (e : Event) : Prop where
  declares : ∀ ⦃q s name⦄, e.get? q = some s → s.target? = some (.label name) →
    ∃ p t, e.get? p = some t ∧ name ∈ t.declaredLabels
  assigns : ∀ ⦃q s c name⦄, e.get? q = some s → s.condition? = some c → c.Reads name →
    ∃ p t, e.get? p = some t ∧ t.assignedVariable? = some name

/-- An event has all that it refers to by a name exactly if only jumps without a label dangle. -/
lemma refersWithin_iff :
    e.RefersWithin ↔ ∀ fault, e.Dangles fault → ∃ text, fault = .transientJump text := by
  constructor
  · rintro ⟨hdeclares, hassigns⟩ fault (⟨hs, ht, hnone⟩ | ⟨-, -, -⟩ | ⟨hs, hc, hreads, hnone⟩)
    · obtain ⟨p, t, hp, hname⟩ := hdeclares hs ht
      exact absurd hname (hnone p t hp)
    · exact ⟨_, rfl⟩
    · obtain ⟨p, t, hp, hname⟩ := hassigns hs hc hreads
      exact absurd hname (hnone p t hp)
  · intro h
    constructor
    · intro q s name hs ht
      by_contra hnone
      push Not at hnone
      obtain ⟨text, htext⟩ := h _ (.label hs ht hnone)
      cases htext
    · intro q s c name hs hc hreads
      by_contra hnone
      push Not at hnone
      obtain ⟨text, htext⟩ := h _ (.read hs hc hreads hnone)
      cases htext

end Event

/-! ### Events with the same references -/

/-- Two statements refer to the same, and are referred to in the same way. -/
structure Statement.SameReferences (s t : Statement) : Prop where
  target : t.target? = s.target?
  labels : t.declaredLabels = s.declaredLabels
  assigned : t.assignedVariable? = s.assignedVariable?
  reads : ∀ name, (∃ c ∈ t.condition?, c.Reads name) ↔ ∃ c ∈ s.condition?, c.Reads name

namespace Statement

variable {s t : Statement}

/-- References are read off the shells of statements. -/
lemma sameReferences_of_shell (h : t.shell = s.shell) : s.SameReferences t where
  target := by rw [← target?_shell, h, target?_shell]
  labels := by rw [← declaredLabels_shell, h, declaredLabels_shell]
  assigned := by rw [← assignedVariable?_shell, h, assignedVariable?_shell]
  reads name := by rw [← condition?_shell, h, condition?_shell]

/-- Whether a statement has a fault is read off its references. -/
lemma referenceFault?_eq_none_iff {declared assigned : List Text} :
    s.referenceFault? declared assigned = none ↔
      (∀ target ∈ s.target?, ∃ name ∈ declared, target = .label name) ∧
        ∀ name, (∃ c ∈ s.condition?, c.Reads name) → name ∈ assigned := by
  rw [referenceFault?, Option.or_eq_none_iff]
  refine and_congr ?_ ?_
  · rw [jumpFault?]
    cases s.target? with
    | none => simp
    | some target => cases target <;> simp
  · cases s.condition? with
    | none => simp
    | some c => simp [Condition.variableFault?_eq_none_iff]

end Statement

/-- Statements with the same references declare and assign the same. -/
lemma Event.declared_eq_of_forall₂ {l l' : List Statement}
    (h : List.Forall₂ Statement.SameReferences l l') :
    l'.flatMap Statement.declaredLabels = l.flatMap Statement.declaredLabels ∧
      l'.filterMap Statement.assignedVariable? = l.filterMap Statement.assignedVariable? := by
  induction h with
  | nil => exact ⟨rfl, rfl⟩
  | cons hst _ ih =>
      rw [List.flatMap_cons, List.flatMap_cons, List.filterMap_cons, List.filterMap_cons, ih.1,
        ih.2, hst.labels, hst.assigned]
      exact ⟨rfl, rfl⟩

/-- **The check looks at nothing but the references**: events whose statements refer to the same are
both accepted, or both refused. -/
theorem Event.referenceFault?_eq_none_congr {e e' : Event}
    (h : List.Forall₂ Statement.SameReferences (Body.walk e.body) (Body.walk e'.body)) :
    e'.referenceFault? = none ↔ e.referenceFault? = none := by
  have hsame : ∀ declared assigned {l l' : List Statement},
      List.Forall₂ Statement.SameReferences l l' →
        ((∀ t ∈ l', t.referenceFault? declared assigned = none) ↔
          ∀ s ∈ l, s.referenceFault? declared assigned = none) := by
    intro declared assigned l l' hl
    induction hl with
    | nil => simp
    | cons hst _ ih =>
        rw [List.forall_mem_cons, List.forall_mem_cons, ih,
          Statement.referenceFault?_eq_none_iff, Statement.referenceFault?_eq_none_iff, hst.target]
        simp only [hst.reads]
  obtain ⟨hdeclared, hassigned⟩ := declared_eq_of_forall₂ h
  have hdeclared : e'.declaredLabels = e.declaredLabels := hdeclared
  have hassigned : e'.assignedVariables = e.assignedVariables := hassigned
  rw [referenceFault?, referenceFault?, hdeclared, hassigned, List.findSome?_eq_none_iff,
    List.findSome?_eq_none_iff]
  exact hsame _ _ h

end EventScript
