import EventScript.Proofs.Jump.Frame
import EventScript.Proofs.Statement.Moved

/-!
Runs of edits.

An event is edited step by step: remarks are moved between statements or to its end, conditions are
drained, and jumps are resolved, with or without a fault.

* `Body.ResolvesTo.allRemarks_eq`: resolved jumps leave the remarks as they are;
* `Event.Edit`, `Event.run`: an edit, and a run of them, with the remarks drained on the way;
* `Event.Edit.remarks_apply`: no edit loses or doubles a remark;
* `Event.remarksKept`: no run does.
-/

namespace EventScript

/-! ### Resolved jumps -/

lemma Tags.ResolvesTo.remarks {tags tags' : Tags} {added : List Text}
    (h : tags.ResolvesTo tags' added) : tags'.remarks = tags.remarks := by
  cases h <;> rfl

lemma Action.ResolvesTo.condition? {a a' : Action} (h : a.ResolvesTo a') :
    a'.condition? = a.condition? := by
  cases h <;> rfl

mutual

/-- Resolving jumps keeps the remarks in a statement. -/
lemma Statement.ResolvesTo.allRemarks_eq : ∀ {s t : Statement} {added : List Text},
    s.ResolvesTo t added → t.allRemarks = s.allRemarks
  | .simple tags a, _, _, h => by
      cases h with
      | simple ht ha =>
          rw [Statement.allRemarks_simple, Statement.allRemarks_simple]
          exact Statement.ownRemarks_congr ht.remarks ha.condition?
  | .loop tags code body, _, _, h => by
      cases h with
      | loop _ hb ht =>
          rw [Statement.allRemarks_loop, Statement.allRemarks_loop,
            Body.ResolvesTo.allRemarks_eq hb]
          exact congrArg _ (Statement.ownRemarks_congr ht.remarks rfl)
  | .choice tags c yes no, _, _, h => by
      cases h with
      | choice _ hy hn ht =>
          rw [Statement.allRemarks_choice, Statement.allRemarks_choice,
            Body.ResolvesTo.allRemarks_eq hy, Body.ResolvesTo.allRemarks_eq hn]
          exact congrArg _ (Statement.ownRemarks_congr ht.remarks rfl)

/-- Resolving jumps keeps the remarks in a body. -/
lemma Body.ResolvesTo.allRemarks_eq : ∀ {old new : List Statement} {added : List Text},
    Body.ResolvesTo old new added → Body.allRemarks new = Body.allRemarks old
  | [], _, _, h => by
      cases h with
      | nil => rfl
      | bearer name => rfl
  | s :: rest, _, _, h => by
      cases h with
      | cons hs hrest =>
          rw [Body.allRemarks, Body.allRemarks, List.flatMap_cons, List.flatMap_cons,
            Statement.ResolvesTo.allRemarks_eq hs]
          exact congrArg _ (Body.ResolvesTo.allRemarks_eq hrest)

end

namespace Event

variable (e : Event)

/-- A body that has grown has the remarks it had. -/
lemma allRemarks_eq_of_grown {e e' : Event} (h : Body.Grown e.body e'.body)
    (hbody : ∃ body, e' = { e with body := body }) : e'.allRemarks = e.allRemarks := by
  obtain ⟨added, hresolves⟩ := Body.exists_resolvesTo e.body h
  obtain ⟨body, rfl⟩ := hbody
  rw [allRemarks, hresolves.allRemarks_eq, allRemarks]

lemma allRemarks_labelNodes : e.labelNodes.event.allRemarks = e.allRemarks := by
  by_cases hfault : e.labelNodes.fault = none
  · have hn := nodesLabelled_labelNodes hfault
    refine allRemarks_eq_of_grown ⟨hn.follows, fun q t ht hnone => ?_⟩ e.exists_body_labelNodes
    obtain ⟨s, hs⟩ := hn.no_more ht
    rw [get?, hnone] at hs
    cases hs
  · rw [e.event_labelNodes_of_fault hfault]

lemma allRemarks_labelSkips : e.labelSkips.event.allRemarks = e.allRemarks := by
  cases hskip : Body.skipFault? e.body with
  | some fault => rw [labelSkips, hskip]
  | none =>
      obtain ⟨-, hs, -⟩ := settled_labelSkips hskip
      exact allRemarks_eq_of_grown ⟨hs.follows, hs.added⟩ e.exists_body_labelSkips

lemma allRemarks_resolveJumps : e.resolveJumps.event.allRemarks = e.allRemarks := by
  by_cases hfault : e.labelNodes.fault = none
  · rw [e.resolveJumps_of_none hfault, allRemarks_labelSkips, allRemarks_labelNodes]
  · rw [e.resolveJumps_of_fault hfault, allRemarks_labelNodes]

/-! ### Moved remarks -/

lemma coe_allRemarks :
    (e.allRemarks : Multiset Remark) = Body.allRemarks e.body + e.closingRemarks :=
  (Multiset.coe_add _ _).symm

/-- An event with another statement in the place of one with the same bodies. -/
lemma coe_allRemarks_set {p : Position} {s t : Statement} (hs : e.get? p = some s)
    (hbodies : t.bodies = s.bodies) :
    ((e.set p t).allRemarks : Multiset Remark) + s.ownRemarks = e.allRemarks + t.ownRemarks := by
  have hbody := Body.coe_allRemarks_modify (f := fun _ => t) hbodies hs
  rw [coe_allRemarks, coe_allRemarks, add_right_comm, add_right_comm (_ : Multiset Remark) _
    (t.ownRemarks : Multiset Remark)]
  exact congrArg (· + (e.closingRemarks : Multiset Remark)) hbody

/-- Two statements apart from each other may exchange remarks. -/
lemma coe_allRemarks_exchanged {p q : Position} (hapart : p.isApart q = true)
    {s other t other' : Statement} (hs : e.get? p = some s) (hother : e.get? q = some other)
    (h : s.Exchanges other t other') :
    (((e.set p t).set q other').allRemarks : Multiset Remark) = e.allRemarks := by
  have hkept : (e.set p t).get? q = some other :=
    (Body.get?_modify_of_isApart hapart e.body).trans hother
  have hfirst := e.coe_allRemarks_set hs h.source
  have hsecond := (e.set p t).coe_allRemarks_set hkept h.target
  refine add_right_cancel (b := (s.ownRemarks + other.ownRemarks : Multiset Remark)) ?_
  rw [← add_assoc, add_right_comm, hsecond, add_right_comm, hfirst, add_assoc, h.remarks]

/-- Moving remarks to another statement keeps them. -/
lemma coe_allRemarks_moveRemarks {source target : Position}
    (hapart : source.isApart target = true) (withConditions : Bool) :
    ((e.moveRemarks source target withConditions).allRemarks : Multiset Remark) =
      e.allRemarks := by
  rw [moveRemarks]
  split
  · next s other hs hother =>
      exact e.coe_allRemarks_exchanged hapart hs hother (s.exchanges_handOver other withConditions)
  · rfl

/-- Moving remarks to the end of the event keeps them. -/
lemma coe_allRemarks_moveRemarksToEnd (source : Position) :
    ((e.moveRemarksToEnd source).allRemarks : Multiset Remark) = e.allRemarks := by
  rw [moveRemarksToEnd]
  split
  · next s hs =>
      have hbodies : (s.withRemarks []).bodies = s.bodies := s.bodies_mapTags _
      have hset := (e.takeRemarks s).1.coe_allRemarks_set hs hbodies
      have hclosing : ((e.takeRemarks s).1.allRemarks : Multiset Remark) =
          e.allRemarks + s.tags.remarks := by
        rw [coe_allRemarks, coe_allRemarks, add_assoc, Multiset.coe_add e.closingRemarks]
        rfl
      refine add_right_cancel (hset.trans ?_)
      rw [hclosing, Statement.coe_ownRemarks_withRemarks, s.coe_ownRemarks]
      exact (add_assoc _ _ _).trans (congrArg _ (congrArg _ (zero_add _)))
  · rfl

/-- The remarks that are drained are taken out, and all others are kept. -/
lemma coe_allRemarks_drainAt (p : Position) :
    ((e.drainAt p).1.allRemarks : Multiset Remark) + ((e.drainAt p).2.getD [] : List Remark) =
      e.allRemarks := by
  rw [drainAt]
  split
  · next s hs =>
      have hset := e.coe_allRemarks_set hs (s.bodies_mapCondition Condition.stripped)
      rw [s.coe_ownRemarks_stripped, s.coe_ownRemarks] at hset
      have hdrained : (s.condition?.map fun _ => s.conditionRemarks).getD [] =
          s.conditionRemarks := by
        rw [Statement.conditionRemarks]
        cases s.condition? <;> rfl
      rw [Statement.drainCondition_eq, hdrained]
      refine add_right_cancel (b := (s.tags.remarks : Multiset Remark)) ?_
      rw [← hset]
      abel
  · exact add_zero _

/-- **Draining takes the remarks out of a condition**, in the order of the visit, and changes
nothing else. -/
theorem drainAt_eq {p : Position} {s : Statement} (hs : e.get? p = some s) {c : Condition}
    (hc : s.condition? = some c) :
    e.drainAt p = (e.modify (Statement.mapCondition Condition.stripped) p, some c.allRemarks) := by
  have hset : e.set p (s.mapCondition Condition.stripped) =
      e.modify (Statement.mapCondition Condition.stripped) p := by
    have hbody := Body.modify_congr (f := fun _ => s.mapCondition Condition.stripped)
      (g := Statement.mapCondition Condition.stripped) rfl hs
    rw [set, modify, modify, hbody]
  rw [drainAt, hs]
  simp only [Statement.drainCondition_eq, hset, Statement.conditionRemarks, hc, Option.map_some,
    Option.getD_some]

/-! ### Runs -/

/-- An edit of an event: remarks that are moved, or jumps that are resolved. -/
inductive Edit where
  /-- Remarks are moved from a statement to another one, neither of which contains the other. -/
  | move (source target : Position) (withConditions : Bool) (h : source.isApart target = true)
  /-- Remarks are moved from a statement to the end of the event. -/
  | moveToEnd (source : Position)
  /-- Remarks are taken out of the condition of a statement. -/
  | drain (p : Position)
  | labelNodes
  | labelSkips
  | resolveJumps

/-- What a run of edits has come to: the event, and the remarks drained on the way. -/
structure Edited where
  event : Event
  drained : List Remark

/-- All remarks, those that were drained too. -/
def Edited.remarks (x : Edited) : Multiset Remark := x.event.allRemarks + x.drained

/-- One edit. The steps of resolving jumps count as they leave the event, also with a fault. -/
def Edit.apply : Edit → Edited → Edited
  | move source target withConditions _, x =>
    { x with event := x.event.moveRemarks source target withConditions }
  | moveToEnd source, x => { x with event := x.event.moveRemarksToEnd source }
  | drain p, x =>
    let (e, drained) := x.event.drainAt p
    ⟨e, x.drained ++ drained.getD []⟩
  | labelNodes, x => { x with event := x.event.labelNodes.event }
  | labelSkips, x => { x with event := x.event.labelSkips.event }
  | resolveJumps, x => { x with event := x.event.resolveJumps.event }

/-- A run of edits, from an event on. -/
def run (edits : List Edit) : Edited := edits.foldl (fun x edit => edit.apply x) ⟨e, []⟩

/-- **No edit loses or doubles a remark.** -/
theorem Edit.remarks_apply (edit : Edit) (x : Edited) : (edit.apply x).remarks = x.remarks := by
  have hkept : ∀ {e : Event}, (e.allRemarks : Multiset Remark) = x.event.allRemarks →
      (Edited.mk e x.drained).remarks = x.remarks := fun h => congrArg (· + _) h
  cases edit with
  | move source target withConditions h =>
      exact hkept (x.event.coe_allRemarks_moveRemarks h withConditions)
  | moveToEnd source => exact hkept (x.event.coe_allRemarks_moveRemarksToEnd source)
  | drain p =>
      have hdrained := x.event.coe_allRemarks_drainAt p
      rw [Edited.remarks, Edited.remarks, ← hdrained, add_assoc, add_comm (_ : Multiset Remark)
        (x.drained : Multiset Remark), Multiset.coe_add]
      rfl
  | labelNodes => exact hkept (congrArg _ x.event.allRemarks_labelNodes)
  | labelSkips => exact hkept (congrArg _ x.event.allRemarks_labelSkips)
  | resolveJumps => exact hkept (congrArg _ x.event.allRemarks_resolveJumps)

/-- A run of edits neither loses nor doubles a remark. -/
lemma remarks_foldl (edits : List Edit) (x : Edited) :
    (edits.foldl (fun x edit => edit.apply x) x).remarks = x.remarks := by
  induction edits generalizing x with
  | nil => rfl
  | cons edit edits ih => rw [List.foldl_cons, ih, edit.remarks_apply]

/-- What a run of edits makes of the remarks of an event. -/
structure RemarksKept (e : Event) (edits : List Edit) : Prop where
  /-- The remarks that are still in the event and those that were drained are together those that
  were in it. -/
  kept : ((e.run edits).event.allRemarks : Multiset Remark) + (e.run edits).drained = e.allRemarks
  /-- A condition that is drained then gives all its remarks, in the order of the visit, and nothing
  else changes. -/
  drains : ∀ ⦃p s c⦄, (e.run edits).event.get? p = some s → s.condition? = some c →
    (e.run edits).event.drainAt p =
      ((e.run edits).event.modify (Statement.mapCondition Condition.stripped) p,
        some c.allRemarks)

/-- **No run of edits loses or doubles a remark**, whatever is moved, drained and resolved, and in
whatever order. -/
theorem remarksKept (edits : List Edit) : e.RemarksKept edits where
  kept := (remarks_foldl edits ⟨e, []⟩).trans (add_zero _)
  drains _ _ _ hs hc := drainAt_eq _ hs hc

/-- A remark that once belonged to a condition is put on the condition of the other statement, and
drained from there. -/
example (r : Remark) (h : r.forCondition = true) : (run
    { body := [.simple { remarks := [r] } .noOp, .simple {} (.wait .always false)] }
    [.move (.here 0) (.here 1) true rfl, .labelSkips, .drain (.here 1)]).drained = [r] := by
  obtain ⟨kind, comment, line, position, forCondition⟩ := r
  subst h
  rfl

end Event

end EventScript
