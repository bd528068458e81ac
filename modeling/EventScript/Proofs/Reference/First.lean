import EventScript.Proofs.Reference.Dangling
import EventScript.Proofs.Statement.Order

/-!
The fault that the check of references reports.

A statement may refer to several things that are not there, by its jump and by its condition, and an
event has many statements. One fault is reported, and here it is described by positions and by the
parts of a condition, without a visit.

* `Condition.ReadsFirst`: the variable read first in a condition among those of a kind;
* `Event.FaultAt`: the one fault of a statement, in which its jump goes before its condition;
* `Event.FirstFault`: the fault of the statement that is visited before all others with a fault;
* `Event.IsResolved`: every jump goes to a label that is declared somewhere, and every variable read
  is assigned somewhere;
* `Event.referenceFault?_exact`: the check accepts exactly the resolved events, and else it reports
  the first fault.
-/

namespace EventScript

/-! ### The first fault of a condition -/

namespace Condition

/-- The first variable of a kind that a condition reads, from left to right. -/
inductive ReadsFirst (kind : Text → Prop) (name : Text) : Condition → Prop
  | here (group : Int) (compiled negated : Bool) (remarks : List Remark) (h : kind name) :
      ReadsFirst kind name (.atom (.read group compiled (some name)) negated remarks)
  | part {front back : List Condition} {c : Condition} (op : Connective) (negated : Bool)
      (remarks : List Remark) (hfront : ∀ d ∈ front, ∀ other, d.Reads other → ¬ kind other)
      (h : ReadsFirst kind name c) :
      ReadsFirst kind name (.combine op (front ++ c :: back) negated remarks)

variable {assigned : List Text}

/-- A read is at fault if nothing assigns its variable. -/
lemma variableFault?_read (group : Int) (compiled negated : Bool) (remarks : List Remark)
    (name : Text) :
    (atom (.read group compiled (some name)) negated remarks).variableFault? assigned =
      if assigned.contains name then none else some (.unassignedVariable name) := by
  rw [variableFault?, walk, List.findSome?_singleton]
  rfl

/-- The fault of a combination is that of the first part that has one. -/
lemma variableFault?_combine (op : Connective) (parts : List Condition) (negated : Bool)
    (remarks : List Remark) :
    (combine op parts negated remarks).variableFault? assigned =
      parts.findSome? (variableFault? assigned) := by
  have hparts : ∀ f : Condition → Option Fault, (walkAll .forward parts).findSome? f =
      parts.findSome? fun c => (c.walk .forward).findSome? f := by
    intro f
    induction parts with
    | nil => rfl
    | cons c cs ih =>
        rw [walkAll, List.findSome?_append, ih, List.findSome?_cons]
        cases (c.walk .forward).findSome? f with
        | none => rfl
        | some fault => rfl
  rw [variableFault?, walk, List.findSome?_append, hparts, List.findSome?_singleton]
  exact Option.or_none

/-- The variable that is read first and not assigned is at fault. -/
lemma variableFault?_of_readsFirst {name : Text} {c : Condition}
    (h : c.ReadsFirst (· ∉ assigned) name) :
    c.variableFault? assigned = some (.unassignedVariable name) := by
  induction h with
  | here group compiled negated remarks hname =>
      rw [variableFault?_read, if_neg]
      simpa using hname
  | @part front back c op negated remarks hfront _ ih =>
      rw [variableFault?_combine, List.findSome?_eq_some_iff]
      refine ⟨front, c, back, rfl, ih, fun d hd => variableFault?_eq_none_iff.mpr ?_⟩
      intro other hreads
      exact not_not.mp (hfront d hd other hreads)

mutual

/-- A fault is that of the variable that is read first and not assigned. -/
lemma exists_readsFirst {fault : Fault} : ∀ c : Condition, c.variableFault? assigned = some fault →
    ∃ name, c.ReadsFirst (· ∉ assigned) name ∧ fault = .unassignedVariable name
  | atom a negated remarks, h => by
      obtain ⟨name, hreads, hnot, rfl⟩ := exists_of_variableFault? h
      obtain ⟨group, compiled, negated, remarks⟩ := hreads
      exact ⟨name, .here group compiled negated remarks hnot, rfl⟩
  | combine op parts negated remarks, h => by
      rw [variableFault?_combine] at h
      obtain ⟨name, front, c, back, rfl, hfront, hfirst, rfl⟩ := exists_part_readsFirst parts h
      exact ⟨name, .part op negated remarks hfront hfirst, rfl⟩

/-- In the parts of a combination it stands in the first one that has a fault. -/
lemma exists_part_readsFirst {fault : Fault} : ∀ cs : List Condition,
    cs.findSome? (variableFault? assigned) = some fault →
      ∃ name front c back, cs = front ++ c :: back ∧
        (∀ d ∈ front, ∀ other, d.Reads other → ¬ other ∉ assigned) ∧
          c.ReadsFirst (· ∉ assigned) name ∧ fault = .unassignedVariable name
  | [], h => by cases h
  | c :: cs, h => by
      rw [List.findSome?_cons] at h
      cases hc : c.variableFault? assigned with
      | some other =>
          rw [hc] at h
          obtain rfl := Option.some.inj h
          obtain ⟨name, hfirst, rfl⟩ := exists_readsFirst c hc
          exact ⟨name, [], c, cs, rfl, fun d hd => absurd hd List.not_mem_nil, hfirst, rfl⟩
      | none =>
          rw [hc] at h
          obtain ⟨name, front, d, back, rfl, hfront, hfirst, rfl⟩ := exists_part_readsFirst cs h
          refine ⟨name, c :: front, d, back, rfl, List.forall_mem_cons.mpr ⟨?_, hfront⟩, hfirst,
            rfl⟩
          exact fun other hreads => not_not.mpr (variableFault?_eq_none_iff.mp hc other hreads)

end

/-- **The fault of a condition** is that of the variable that is read first and not assigned. -/
theorem variableFault?_eq_some_iff {fault : Fault} {c : Condition} :
    c.variableFault? assigned = some fault ↔
      ∃ name, c.ReadsFirst (· ∉ assigned) name ∧ fault = .unassignedVariable name := by
  constructor
  · exact exists_readsFirst c
  · rintro ⟨name, hfirst, rfl⟩
    exact variableFault?_of_readsFirst hfirst

end Condition

/-! ### The first fault of an event -/

namespace Event

/-- A label is declared by some statement of the event. -/
def Declares (e : Event) (name : Text) : Prop := ∃ p t, e.get? p = some t ∧ name ∈ t.declaredLabels

/-- A condition variable is assigned by some statement of the event. -/
def Assigns (e : Event) (name : Text) : Prop :=
  ∃ p t, e.get? p = some t ∧ t.assignedVariable? = some name

/-- The jump of a statement, if it has one, goes to a label that is declared. -/
def JumpsWithin (e : Event) (s : Statement) : Prop :=
  ∀ target, s.target? = some target → ∃ name, target = .label name ∧ e.Declares name

/-- The fault of a statement of an event: that of its jump, or else that of the first variable that
its condition reads and nothing assigns. -/
inductive FaultAt (e : Event) (s : Statement) : Fault → Prop
  | label {name : Text} (ht : s.target? = some (.label name)) (hnot : ¬ e.Declares name) :
      FaultAt e s (.unresolvedLabel name)
  | transient {target : Target} (ht : s.target? = some target) (hlabel : target.label? = none) :
      FaultAt e s (.transientJump s.text)
  | read {c : Condition} {name : Text} (hjump : e.JumpsWithin s) (hc : s.condition? = some c)
      (hfirst : c.ReadsFirst (¬ e.Assigns ·) name) : FaultAt e s (.unassignedVariable name)

/-- The fault of the first statement that has one, in the order in which statements are visited. -/
def FirstFault (e : Event) (fault : Fault) : Prop :=
  ∃ q s, e.get? q = some s ∧ e.FaultAt s fault ∧
    ∀ p t, e.get? p = some t → p.Precedes q → ∀ other, ¬ e.FaultAt t other

/-- An event whose jumps all go to labels, and that has all it refers to by a name. -/
structure IsResolved (e : Event) : Prop extends RefersWithin e where
  labelled : ∀ ⦃q s target⦄, e.get? q = some s → s.target? = some target →
    ∃ name, target = .label name

variable {e : Event} {s : Statement}

lemma jumpFault?_eq_none_iff : s.jumpFault? e.declaredLabels = none ↔ e.JumpsWithin s := by
  rw [Statement.jumpFault?, JumpsWithin]
  cases s.target? with
  | none => simp
  | some target =>
      cases target with
      | label name => simp [mem_declaredLabels_iff, Declares]
      | node n => simp
      | skip commands => simp

/-- The fault of a jump, described by the labels of the event. -/
lemma jumpFault?_eq_some_iff {fault : Fault} : s.jumpFault? e.declaredLabels = some fault ↔
    (∃ name, s.target? = some (.label name) ∧ ¬ e.Declares name ∧ fault = .unresolvedLabel name) ∨
      ∃ target, s.target? = some target ∧ target.label? = none ∧
        fault = .transientJump s.text := by
  rw [Statement.jumpFault?]
  cases s.target? with
  | none => simp
  | some target =>
      cases target with
      | label name => simp [mem_declaredLabels_iff, Declares, Target.label?, eq_comm]
      | node n => simp [Target.label?, eq_comm]
      | skip commands => simp [Target.label?, eq_comm]

/-- **The fault of a statement** is what the check finds in it. -/
theorem faultAt_iff {fault : Fault} : e.FaultAt s fault ↔
    s.referenceFault? e.declaredLabels e.assignedVariables = some fault := by
  have hkind : (¬ e.Assigns ·) = (· ∉ e.assignedVariables) :=
    funext fun name => propext (not_congr mem_assignedVariables_iff.symm)
  rw [Statement.referenceFault?, Option.or_eq_some_iff, jumpFault?_eq_some_iff,
    jumpFault?_eq_none_iff, Option.bind_eq_some_iff]
  constructor
  · intro h
    cases h with
    | label ht hnot => exact Or.inl (Or.inl ⟨_, ht, hnot, rfl⟩)
    | transient ht hlabel => exact Or.inl (Or.inr ⟨_, ht, hlabel, rfl⟩)
    | read hjump hc hfirst =>
        rw [hkind] at hfirst
        exact Or.inr ⟨hjump, _, hc, Condition.variableFault?_of_readsFirst hfirst⟩
  · rintro ((⟨name, ht, hnot, rfl⟩ | ⟨target, ht, hlabel, rfl⟩) | ⟨hjump, c, hc, hfault⟩)
    · exact .label ht hnot
    · exact .transient ht hlabel
    · obtain ⟨name, hfirst, rfl⟩ := Condition.variableFault?_eq_some_iff.mp hfault
      rw [← hkind] at hfirst
      exact .read hjump hc hfirst

/-- A statement is without a fault exactly if its jump and all that its condition reads are
there. -/
lemma forall_not_faultAt_iff : (∀ fault, ¬ e.FaultAt s fault) ↔
    e.JumpsWithin s ∧ ∀ c, s.condition? = some c → ∀ name, c.Reads name → e.Assigns name := by
  have hnone : (∀ fault, ¬ e.FaultAt s fault) ↔
      s.referenceFault? e.declaredLabels e.assignedVariables = none := by
    simp only [faultAt_iff, Option.eq_none_iff_forall_ne_some, ne_eq]
  rw [hnone, Statement.referenceFault?, Option.or_eq_none_iff, jumpFault?_eq_none_iff,
    Option.bind_eq_none_iff]
  refine and_congr_right fun _ => forall_congr' fun c => imp_congr_right fun _ => ?_
  rw [Condition.variableFault?_eq_none_iff]
  exact forall_congr' fun name => imp_congr_right fun _ => mem_assignedVariables_iff

/-- Resolved events are those without a fault at any statement. -/
lemma isResolved_iff : e.IsResolved ↔ ∀ q s, e.get? q = some s → ∀ fault, ¬ e.FaultAt s fault := by
  simp only [forall_not_faultAt_iff]
  constructor
  · intro h q s hs
    refine ⟨fun target ht => ?_, fun c hc name hreads => h.assigns hs hc hreads⟩
    obtain ⟨name, rfl⟩ := h.labelled hs ht
    exact ⟨name, rfl, h.declares hs ht⟩
  · intro h
    refine { declares := ?_, assigns := ?_, labelled := ?_ }
    · intro q s name hs ht
      obtain ⟨other, heq, hdeclares⟩ := (h q s hs).1 _ ht
      obtain rfl : name = other := by injection heq
      exact hdeclares
    · exact fun q s c name hs hc hreads => (h q s hs).2 c hc name hreads
    · intro q s target hs ht
      obtain ⟨name, rfl, -⟩ := (h q s hs).1 target ht
      exact ⟨name, rfl⟩

/-- **The check of references is exact.** It accepts an event exactly if every jump goes to a label
that some statement declares and every variable that a condition reads is assigned by some
statement, and else it reports the fault of the first statement that has one. -/
theorem referenceFault?_exact (e : Event) :
    (e.referenceFault? = none ↔ e.IsResolved) ∧
      ∀ fault, e.referenceFault? = some fault ↔ e.FirstFault fault := by
  constructor
  · rw [isResolved_iff, referenceFault?, List.findSome?_eq_none_iff]
    simp only [faultAt_iff, ← Option.eq_none_iff_forall_ne_some, ← ne_eq]
    constructor
    · exact fun h q s hs => h s (Body.mem_walk_iff.mpr ⟨q, hs⟩)
    · intro h s hs
      obtain ⟨q, hq⟩ := Body.mem_walk_iff.mp hs
      exact h q s hq
  · intro fault
    rw [referenceFault?, Body.findSome?_walk_eq_some_iff, FirstFault]
    simp only [faultAt_iff, ← Option.eq_none_iff_forall_ne_some, ← ne_eq]
    rfl

/-- A jump that is nested in a choice is at fault before the condition of the choice. -/
example : ({ body := [.choice {} (.readOf "x".toList)
    [.simple {} (.jump (.label "a".toList) .always)] []] } : Event).referenceFault? =
      some (.unresolvedLabel "a".toList) := rfl

end Event

end EventScript
