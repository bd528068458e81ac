import EventScript.Proofs.Jump.Change
import EventScript.Proofs.Statement.Stripped
import Mathlib.Algebra.Order.Group.Multiset
import Mathlib.Tactic.Abel

/-!
Remarks that are moved are neither lost nor doubled.

Remarks are counted as a multiset, in which a remark that stands twice is found twice.

* `Condition.drain_eq`: the remarks taken out of a condition are all of them, in the order of the
  visit, and the rest of the condition is left;
* `Statement.Exchanges`: two statements have become others, which have the same remarks between
  them and the same bodies. Handing remarks over is such an exchange (`exchanges_handOver`);
* `Body.get?_modify_of_isApart`: a statement does not see a change elsewhere;
* `Body.coe_allRemarks_modify`: the remarks of a body with one statement changed.
-/

namespace EventScript

/-! ### Drained conditions -/

namespace Condition

mutual

/-- Remarks are taken out of a condition behind those taken out before. -/
lemma edit_drain : ∀ (c : Condition) (drained : List Remark),
    c.edit .forward (fun c drained => (c.withRemarks [], drained ++ c.remarks)) drained =
      (c.stripped, drained ++ c.allRemarks)
  | atom a negated remarks, drained => by
      rw [edit, stripped, allRemarks, walk, List.flatMap_singleton]
      rfl
  | combine op parts negated remarks, drained => by
      rw [edit, editAll_drain parts drained, stripped, allRemarks, walk, List.flatMap_append,
        List.flatMap_singleton, ← List.append_assoc]
      rfl

lemma editAll_drain : ∀ (cs : List Condition) (drained : List Remark),
    editAll .forward (fun c drained => (c.withRemarks [], drained ++ c.remarks)) cs drained =
      (strippedAll cs, drained ++ (walkAll .forward cs).flatMap remarks)
  | [], drained => by
      rw [editAll, strippedAll, walkAll, List.flatMap_nil, List.append_nil]
  | c :: cs, drained => by
      have hc := edit_drain c drained
      have hcs := editAll_drain cs (drained ++ c.allRemarks)
      simp only [editAll, hc, hcs, strippedAll, walkAll, List.flatMap_append, List.append_assoc]
      rfl

end

/-- **Draining takes all remarks out of a condition**, in the order of the visit, and nothing
else. -/
theorem drain_eq (c : Condition) : c.drain = (c.stripped, c.allRemarks) := by
  rw [drain, edit_drain, List.nil_append]

lemma allRemarks_stripped (c : Condition) : c.stripped.allRemarks = [] := by
  rw [allRemarks, walk_stripped, List.flatMap_map, List.flatMap_eq_nil_iff]
  exact fun d _ => remarks_stripped d

/-- The remarks of a condition with remarks put behind its own. -/
lemma coe_allRemarks_withRemarks (c : Condition) (rs : List Remark) :
    ((c.withRemarks (c.remarks ++ rs)).allRemarks : Multiset Remark) = c.allRemarks + rs := by
  cases c with
  | atom a negated remarks =>
      simp only [allRemarks, walk, withRemarks, List.flatMap_singleton]
      rfl
  | combine op parts negated remarks =>
      simp only [allRemarks, walk, withRemarks, List.flatMap_append, List.flatMap_singleton]
      rw [Multiset.coe_add, List.append_assoc]
      rfl

end Condition

/-! ### Remarks handed over -/

namespace Statement

/-- The remarks in the condition of a statement. -/
def conditionRemarks (s : Statement) : List Remark :=
  (s.condition?.map Condition.allRemarks).getD []

variable {s t other other' : Statement}

lemma coe_ownRemarks (s : Statement) :
    (s.ownRemarks : Multiset Remark) = s.tags.remarks + s.conditionRemarks :=
  (Multiset.coe_add _ _).symm

/-- The own remarks of a statement are those on it and those in its condition. -/
lemma ownRemarks_congr (htags : t.tags.remarks = s.tags.remarks)
    (hcondition : t.condition? = s.condition?) : t.ownRemarks = s.ownRemarks := by
  rw [ownRemarks, htags, hcondition, ownRemarks]

/-- Two statements have become others, and with them the remarks have changed places. -/
structure Exchanges (s other t other' : Statement) : Prop where
  remarks : (t.ownRemarks : Multiset Remark) + other'.ownRemarks = s.ownRemarks + other.ownRemarks
  source : t.bodies = s.bodies
  target : other'.bodies = other.bodies

lemma Exchanges.trans {u other'' : Statement} (h : s.Exchanges other t other')
    (h' : t.Exchanges other' u other'') : s.Exchanges other u other'' where
  remarks := h'.remarks.trans h.remarks
  source := h'.source.trans h.source
  target := h'.target.trans h.target

@[simp] lemma conditionRemarks_mapTags (f : Tags → Tags) (s : Statement) :
    (s.mapTags f).conditionRemarks = s.conditionRemarks := by
  rw [conditionRemarks, condition?_mapTags, conditionRemarks]

lemma coe_ownRemarks_withRemarks (rs : List Remark) (s : Statement) :
    ((s.withRemarks rs).ownRemarks : Multiset Remark) = rs + s.conditionRemarks := by
  rw [coe_ownRemarks, withRemarks, tags_mapTags, conditionRemarks_mapTags]

lemma coe_ownRemarks_addRemarks (rs : List Remark) (s : Statement) :
    ((s.addRemarks rs).ownRemarks : Multiset Remark) = s.ownRemarks + rs := by
  rw [addRemarks, coe_ownRemarks_withRemarks, ← Multiset.coe_add, coe_ownRemarks]
  abel

lemma coe_ownRemarks_addConditionRemarks {c : Condition} (hc : s.condition? = some c)
    (rs : List Remark) :
    ((s.addConditionRemarks rs).ownRemarks : Multiset Remark) = s.ownRemarks + rs := by
  rw [coe_ownRemarks, coe_ownRemarks, addConditionRemarks, tags_mapCondition, conditionRemarks,
    condition?_mapCondition, conditionRemarks, hc, Option.map_some, Option.map_some,
    Option.getD_some, Option.map_some, Option.getD_some, Condition.coe_allRemarks_withRemarks]
  abel

/-- The remarks in the condition of a statement are taken out of it. -/
lemma drainCondition_eq (s : Statement) :
    s.drainCondition = (s.mapCondition Condition.stripped, s.conditionRemarks) := by
  simp only [drainCondition, Condition.drain_eq]
  rfl

lemma coe_ownRemarks_stripped (s : Statement) :
    ((s.mapCondition Condition.stripped).ownRemarks : Multiset Remark) = s.tags.remarks := by
  have hnone : (s.mapCondition Condition.stripped).conditionRemarks = [] := by
    rw [conditionRemarks, condition?_mapCondition]
    cases s.condition? with
    | none => rfl
    | some c => exact c.allRemarks_stripped
  rw [coe_ownRemarks, hnone, tags_mapCondition]
  exact add_zero _

/-- Remarks on a statement are put behind those on another one. -/
lemma exchanges_remarks (s other : Statement) :
    s.Exchanges other (s.withRemarks []) (other.addRemarks s.tags.remarks) where
  remarks := by
    rw [coe_ownRemarks_withRemarks, coe_ownRemarks_addRemarks, coe_ownRemarks s]
    abel
  source := s.bodies_mapTags _
  target := other.bodies_mapTags _

/-- Remarks in the condition of a statement are put behind those on another one. -/
lemma exchanges_lifted (s other : Statement) :
    s.Exchanges other (s.mapCondition Condition.stripped)
      (other.addRemarks s.conditionRemarks) where
  remarks := by
    rw [coe_ownRemarks_stripped, coe_ownRemarks_addRemarks, coe_ownRemarks s]
    abel
  source := s.bodies_mapCondition _
  target := other.bodies_mapTags _

/-- Remarks on a statement are put on the condition of another one, as far as they are chosen. -/
lemma exchanges_parted {c : Condition} (hc : other.condition? = some c) (p : Remark → Bool)
    (s : Statement) : s.Exchanges other (s.withRemarks (s.tags.remarks.filter fun r => !p r))
      (other.addConditionRemarks (s.tags.remarks.filter p)) where
  remarks := by
    have hparts : ((s.tags.remarks.filter p : List Remark) : Multiset Remark) +
        (s.tags.remarks.filter fun r => !p r : List Remark) = s.tags.remarks := by
      rw [Multiset.coe_add]
      exact Multiset.coe_eq_coe.mpr (List.filter_append_perm p _)
    rw [coe_ownRemarks_withRemarks, coe_ownRemarks_addConditionRemarks hc, coe_ownRemarks s,
      ← hparts]
    abel
  source := s.bodies_mapTags _
  target := other.bodies_mapCondition _

lemma exchanges_handOverConditions (s other : Statement) :
    s.Exchanges other (s.handOverConditions other).1 (s.handOverConditions other).2 := by
  have hlifted := s.exchanges_lifted other
  rw [handOverConditions, drainCondition_eq]
  simp only
  split
  · exact hlifted
  · next c hc => exact hlifted.trans (exchanges_parted hc _ _)

/-- What is not a remark does not count. -/
lemma Exchanges.mapTags {f : Tags → Tags} (hf : ∀ tags, (f tags).remarks = tags.remarks)
    (h : s.Exchanges other t other') : s.Exchanges other t (other'.mapTags f) where
  remarks := by
    rw [coe_ownRemarks (other'.mapTags f), tags_mapTags, hf, conditionRemarks_mapTags,
      ← coe_ownRemarks]
    exact h.remarks
  source := h.source
  target := (other'.bodies_mapTags f).trans h.target

/-- **Handing over remarks is an exchange**: no remark is lost or doubled. -/
theorem exchanges_handOver (s other : Statement) (withConditions : Bool) :
    s.Exchanges other (s.handOver other withConditions).1 (s.handOver other withConditions).2 := by
  cases withConditions with
  | false => exact (s.exchanges_remarks other).mapTags fun _ => rfl
  | true =>
      have hconditions := s.exchanges_handOverConditions other
      exact (hconditions.trans (exchanges_remarks _ _)).mapTags fun _ => rfl

end Statement

/-! ### Statements apart -/

namespace Position

/-- Whether the statement at the first position is the one at the second position, or contains
it. -/
def holds : Position → Position → Bool
  | here i, here j => i == j
  | here i, inside j _ _ => i == j
  | inside _ _ _, here _ => false
  | inside i branch p, inside j branch' q => i == j && branch == branch' && holds p q

/-- Whether two statements are different ones, of which neither contains the other. -/
def isApart (p q : Position) : Bool := !p.holds q && !q.holds p

end Position

/-- What becomes of the body that was meant is all that counts. -/
lemma Statement.mapBranch_congr {f g : Body → Body} {inner : Body} (hfg : f inner = g inner)
    {branch : Nat} {s : Statement} (h : s.bodies[branch]? = some inner) :
    s.mapBranch f branch = s.mapBranch g branch := by
  cases s with
  | simple tags a => cases h
  | loop tags code body =>
      cases branch with
      | zero =>
          obtain rfl := Option.some.inj h
          exact congrArg (loop tags code) hfg
      | succ branch => cases h
  | choice tags c yes no =>
      obtain _ | _ | branch := branch
      · obtain rfl := Option.some.inj h
        exact congrArg (choice tags c · no) hfg
      · obtain rfl := Option.some.inj h
        exact congrArg (choice tags c yes) hfg
      · cases h

namespace Body

variable {f g : Statement → Statement}

/-- **A statement does not see a change to one that is apart from it.** -/
theorem get?_modify_of_isApart {p q : Position} (h : p.isApart q = true) (body : Body) :
    get? (modify f p body) q = get? body q := by
  rw [Position.isApart, Bool.and_eq_true, Bool.not_eq_true', Bool.not_eq_true'] at h
  obtain ⟨hpq, hqp⟩ := h
  induction p generalizing q body with
  | here i =>
      cases q with
      | here j =>
          have hne : i ≠ j := by simpa [Position.holds] using hpq
          rw [get?, get?, modify, List.getElem?_modify_ne _ _ hne]
      | inside j branch q =>
          have hne : i ≠ j := by simpa [Position.holds] using hpq
          rw [get?, get?, modify, List.getElem?_modify_ne _ _ hne]
  | inside i branch p ih =>
      cases q with
      | here j =>
          have hne : j ≠ i := by simpa [Position.holds] using hqp
          rw [get?, get?, modify, List.getElem?_modify_ne _ _ hne.symm]
      | inside j branch' q =>
          rw [get?, get?, modify]
          by_cases hij : i = j
          · subst hij
            rw [List.getElem?_modify_eq, Option.map_eq_map, Option.bind_map]
            refine congrArg _ (funext fun s => ?_)
            rw [Function.comp_apply, Statement.bodies_mapBranch]
            by_cases hbranch : branch = branch'
            · subst hbranch
              rw [List.getElem?_modify_eq, Option.map_eq_map, Option.bind_map]
              refine congrArg _ (funext fun inner => ih inner ?_ ?_)
              · simpa [Position.holds] using hpq
              · simpa [Position.holds] using hqp
            · rw [List.getElem?_modify_ne _ _ hbranch]
          · rw [List.getElem?_modify_ne _ _ hij]

/-- What a change makes of the changed statement is all that counts. -/
lemma modify_congr {s : Statement} (hfg : f s = g s) {p : Position} {body : Body}
    (hs : get? body p = some s) : modify f p body = modify g p body := by
  induction p generalizing body with
  | here i =>
      have hs : body[i]? = some s := hs
      rw [modify, modify, List.modify_eq_set_getElem?, List.modify_eq_set_getElem?, hs]
      exact congrArg (body.set i) hfg
  | inside i branch p ih =>
      rw [get?] at hs
      obtain ⟨t, ht, hs⟩ := Option.bind_eq_some_iff.mp hs
      obtain ⟨inner, hb, hs⟩ := Option.bind_eq_some_iff.mp hs
      rw [modify, modify, List.modify_eq_set_getElem?, List.modify_eq_set_getElem?, ht]
      exact congrArg (body.set i) (Statement.mapBranch_congr (ih hs) hb)

end Body

/-! ### The remarks of a changed body -/

/-- Lists put together, with one of them changed. -/
lemma coe_flatMap_modify {α β : Type} (w : α → List β) (f : α → α) {l : List α} {i : Nat} {a : α}
    (ha : l[i]? = some a) : ((l.modify i f).flatMap w : Multiset β) + w a =
      (l.flatMap w : List β) + w (f a) := by
  induction l generalizing i with
  | nil => cases ha
  | cons b l ih =>
      cases i with
      | zero =>
          obtain rfl := Option.some.inj ha
          rw [List.modify_zero_cons, List.flatMap_cons, List.flatMap_cons, ← Multiset.coe_add,
            ← Multiset.coe_add]
          abel
      | succ i =>
          have hrest := ih ha
          rw [List.modify_succ_cons, List.flatMap_cons, List.flatMap_cons, ← Multiset.coe_add,
            ← Multiset.coe_add, add_assoc, hrest, add_assoc]

lemma Statement.coe_allRemarks (s : Statement) : (s.allRemarks : Multiset Remark) =
    (s.bodies.flatMap Body.allRemarks : List Remark) + s.ownRemarks := by
  have hbodies : (Body.walk · |>.flatMap ownRemarks) = Body.allRemarks :=
    funext fun body => (Body.allRemarks_eq_flatMap body).symm
  rw [allRemarks, walk_eq, List.flatMap_append, List.flatMap_singleton, List.flatMap_assoc,
    hbodies, Multiset.coe_add]

/-- The own remarks of a statement are read off its shell. -/
lemma Statement.ownRemarks_mapBranch (f : Body → Body) (branch : Nat) (s : Statement) :
    (s.mapBranch f branch).ownRemarks = s.ownRemarks := by
  have hshell (t : Statement) : t.shell.ownRemarks = t.ownRemarks :=
    ownRemarks_congr (congrArg Tags.remarks t.tags_shell) t.condition?_shell
  rw [← hshell, shell_mapBranch, hshell]

/-- What changes by the same as something else changes by the same as a part of that. -/
lemma add_eq_add_trans {a a' b b' c c' : Multiset Remark} (h : a' + b = a + b')
    (h' : b' + c = b + c') : a' + c = a + c' := by
  refine add_left_cancel (a := b') ?_
  calc b' + (a' + c) = a' + (b' + c) := add_left_comm _ _ _
    _ = a' + b + c' := by rw [h', add_assoc]
    _ = b' + (a + c') := by rw [h, add_comm a b', add_assoc]

/-- **The remarks of a body with one statement changed** are those it had, with the own remarks of
the changed statement in the place of those of the old one. -/
theorem Body.coe_allRemarks_modify {f : Statement → Statement} {s : Statement}
    (hbodies : (f s).bodies = s.bodies) {p : Position} {body : Body} (hs : get? body p = some s) :
    (allRemarks (modify f p body) : Multiset Remark) + s.ownRemarks =
      allRemarks body + (f s).ownRemarks := by
  induction p generalizing body with
  | here i =>
      have hlist := coe_flatMap_modify Statement.allRemarks f hs
      rw [s.coe_allRemarks, (f s).coe_allRemarks, hbodies] at hlist
      exact add_eq_add_trans hlist (add_right_comm _ _ _)
  | inside i branch p ih =>
      rw [get?] at hs
      obtain ⟨t, ht, hs⟩ := Option.bind_eq_some_iff.mp hs
      obtain ⟨inner, hb, hs⟩ := Option.bind_eq_some_iff.mp hs
      have hlist := coe_flatMap_modify Statement.allRemarks
        (Statement.mapBranch (modify f p) branch) ht
      rw [t.coe_allRemarks, Statement.coe_allRemarks, Statement.bodies_mapBranch,
        Statement.ownRemarks_mapBranch] at hlist
      have hinner := coe_flatMap_modify Body.allRemarks (modify f p) hb
      refine add_eq_add_trans hlist ?_
      rw [add_right_comm, add_right_comm (_ : Multiset Remark) _ (f s).ownRemarks,
        add_eq_add_trans hinner (ih hs)]

end EventScript
