import EventScript.Proofs.Layout.Trailing
import EventScript.Proofs.Text.Word

/-!
The texts that a script prints as they are given to it.

Names, labels, expressions and code come from outside and are printed as they are; everything else
is numerals and marks. If the given texts are clean, so is what a statement is printed from.

* `Condition.givenTexts`, `Action.givenTexts`, `Statement.givenTexts`: the given texts of
  conditions, of actions, and of statements without the statements nested in them;
* `Double.isClean_text`: numerals are clean whatever they stand for;
* `Statement.IsClean.isNeat_layout`: the layout of a statement of clean texts.
-/

namespace EventScript

/-! ### Numerals -/

namespace Text

lemma isClean_ofInt (n : Int) : IsClean (ofInt n) :=
  isClean_of_forall (isWord_ofInt n).2 fun c hc => isBlank_of_isWordChar ((isWord_ofInt n).1 c hc)

lemma isBlank_of_mem_ofNat {n : Nat} {c : Char} (h : c ∈ ofNat n) : isBlank c = false :=
  isBlank_of_isWordChar (isWord_ofNat n c h)

lemma notMem_ofNat (n : Nat) : '\n' ∉ ofNat n := fun h =>
  absurd (isBlank_of_mem_ofNat h) (by decide)

end Text

namespace Double

lemma positional_ne_nil (c : Nat) (e : Int) : positional c e ≠ [] := by
  simp only [positional]
  split
  · exact List.append_ne_nil_of_left_ne_nil (Text.ofNat_ne_nil c) _
  · split
    · exact List.append_ne_nil_of_right_ne_nil _ (List.cons_ne_nil _ _)
    · exact List.cons_ne_nil _ _

/-- A decimal consists of digits and perhaps a point. -/
lemma isBlank_of_mem_positional {c : Nat} {e : Int} {d : Char} (h : d ∈ positional c e) :
    Text.isBlank d = false := by
  have hzero {n : Nat} (hd : d ∈ List.replicate n '0') : Text.isBlank d = false := by
    rw [List.eq_of_mem_replicate hd]
    decide
  simp only [positional] at h
  split at h
  · exact (List.mem_append.mp h).elim Text.isBlank_of_mem_ofNat hzero
  · split at h
    · rcases List.mem_append.mp h with hd | hd
      · exact Text.isBlank_of_mem_ofNat (List.mem_of_mem_take hd)
      · rcases List.mem_cons.mp hd with rfl | hd
        · decide
        · exact Text.isBlank_of_mem_ofNat (List.mem_of_mem_drop hd)
    · rcases List.mem_cons.mp h with rfl | h
      · decide
      · rcases List.mem_cons.mp h with rfl | h
        · decide
        · exact (List.mem_append.mp h).elim hzero Text.isBlank_of_mem_ofNat

lemma isClean_positional (c : Nat) (e : Int) : (positional c e).IsClean :=
  Text.isClean_of_forall (positional_ne_nil c e) fun _ => isBlank_of_mem_positional

/-- **The text of a number is clean**, be it finite or not. -/
lemma isClean_text (d : Double) : d.text.IsClean := by
  have hsign {t : Text} (ht : t.IsClean) :
      Text.IsClean (if d.isNegative then '-' :: t else t) := by
    split
    · exact Text.isClean_append (t := ['-']) (by decide) ht
    · exact ht
  rw [text]
  split
  · refine hsign ?_
    split
    · decide
    · generalize (RoundingInterval.ofDouble d).shortest = r
      exact isClean_positional r.1 r.2
  · split
    · split <;> decide
    · decide

end Double

/-! ### Values -/

namespace Value

/-- The texts in a printed value that are printed as they are given. -/
def givenTexts : Value → List Text
  | int _ => []
  | float _ => []
  | parameter name => [name]
  | named name _ => [name]
  | expression code => [code]

/-- A value of clean texts is printed clean. -/
lemma isClean_text {v : Value} (h : ∀ t ∈ v.givenTexts, t.IsClean) : v.text.IsClean := by
  cases v with
  | int n => exact Text.isClean_ofInt n
  | float d => exact d.isClean_text
  | parameter name => exact h name (List.mem_singleton_self name)
  | named name v => exact h name (List.mem_singleton_self name)
  | expression code => exact h code (List.mem_singleton_self code)

end Value

/-- The printed layers are on one line. -/
lemma Layers.notMem_text (l : Layers) : '\n' ∉ l.text := by
  have hlayers : '\n' ∉ Text.commaList (l.toList.map Text.ofNat) := by
    refine Text.notMem_commaList (by decide) (by decide) ?_
    rw [List.forall_mem_map]
    exact fun n _ => Text.notMem_ofNat n
  have hhead : '\n' ∉ "$LAYERS(".toList := by decide
  exact List.not_mem_append (List.not_mem_append hhead hlayers) (t := [')']) (by decide)

/-- Arguments of clean texts are printed on one line. -/
lemma notMem_argumentsText {arguments : List Value} (layers : Option Layers)
    (h : ∀ t ∈ arguments.flatMap Value.givenTexts, t.IsClean) :
    '\n' ∉ argumentsText arguments layers := by
  refine Text.notMem_commaList (by decide) (by decide) ?_
  rw [List.forall_mem_append, List.forall_mem_map, List.forall_mem_map]
  refine ⟨fun v hv => ?_, fun l _ => l.notMem_text⟩
  exact (Value.isClean_text fun t ht => h t (List.mem_flatMap_of_mem hv ht)).oneLine

/-! ### Conditions without parts -/

namespace Query

/-- The given texts of a query. -/
def givenTexts (q : Query) : List Text := q.name :: q.arguments.flatMap Value.givenTexts

lemma isClean_text {q : Query} (h : ∀ t ∈ q.givenTexts, t.IsClean) : q.text.IsClean := by
  rw [givenTexts, List.forall_mem_cons] at h
  refine Text.isClean_append ?_ (u := [')']) (by decide)
  simp [h.1.oneLine, notMem_argumentsText none h.2]

end Query

namespace Operand

/-- The given texts of an operand. -/
def givenTexts : Operand → List Text
  | value v => v.givenTexts
  | query q => q.givenTexts

lemma isClean_text {o : Operand} (h : ∀ t ∈ o.givenTexts, t.IsClean) : o.text.IsClean := by
  cases o with
  | value v => exact Value.isClean_text h
  | query q => exact Query.isClean_text h

end Operand

lemma notMem_negationMark (negated : Bool) : '\n' ∉ negationMark negated := by
  cases negated <;> decide

lemma Comparison.notMem_symbol (c : Comparison) : '\n' ∉ c.symbol := by cases c <;> decide

/-- A condition group is printed clean, and so is a variable of a clean name. -/
lemma Action.isClean_assignee (group : Int) {variableName : Option Text}
    (h : ∀ t ∈ variableName.toList, t.IsClean) : (assignee group variableName).IsClean := by
  cases variableName with
  | some name => exact h name (List.mem_singleton_self name)
  | none =>
      have hhead : '\n' ∉ "cond[".toList := by decide
      exact Text.isClean_append (List.not_mem_append hhead (Text.isClean_ofInt group).oneLine)
        (u := [']']) (by decide)

namespace Atom

/-- The given texts of a condition without parts. -/
def givenTexts : Atom → List Text
  | compare _ left right => left.givenTexts ++ right.givenTexts
  | query q => q.givenTexts
  | read _ _ name => name.toList
  | unreadable message => message.toList

lemma text_read (negated : Bool) (group : Int) (compiled : Bool) (name : Option Text) :
    (read group compiled name).text negated =
      negationMark negated ++ Action.assignee group name ++
        (if compiled then ".Passed".toList else []) := rfl

/-- **A condition without parts is printed clean** if its texts are clean. -/
lemma isClean_text (negated : Bool) {a : Atom} (h : ∀ t ∈ a.givenTexts, t.IsClean) :
    (a.text negated).IsClean := by
  have hmark := notMem_negationMark negated
  cases a with
  | compare relation left right =>
      rw [givenTexts, List.forall_mem_append] at h
      refine Text.isClean_append ?_ (Value.isClean_text h.2)
      simp [(Operand.isClean_text h.1).oneLine, Comparison.notMem_symbol]
  | query q => exact Text.isClean_append hmark (Query.isClean_text h)
  | read group compiled name =>
      have hname := Text.isClean_append hmark (Action.isClean_assignee group h)
      rw [text_read]
      split
      · exact Text.isClean_append hname.oneLine (by decide)
      · rwa [List.append_nil]
  | unreadable message =>
      have hhead : '\n' ∉ "ERROR(\"".toList := by decide
      cases message with
      | none => exact Text.isClean_append hmark (by decide)
      | some message =>
          have hmessage := (h message (List.mem_singleton_self message)).oneLine
          exact Text.isClean_append (List.not_mem_append (List.not_mem_append hmark hhead) hmessage)
            (u := "\")".toList) (by decide)

end Atom

/-! ### Conditions -/

namespace Condition

mutual

/-- The given texts of a condition. -/
def givenTexts : Condition → List Text
  | atom a _ _ => a.givenTexts
  | combine _ parts _ _ => partsGivenTexts parts

/-- The given texts of conditions. -/
def partsGivenTexts : List Condition → List Text
  | [] => []
  | c :: cs => c.givenTexts ++ partsGivenTexts cs

end

mutual

/-- **The layout of a condition of clean texts is neat**, between parentheses or not. -/
lemma isNeat_layout : ∀ (bare : Bool) (c : Condition), (∀ t ∈ c.givenTexts, t.IsClean) →
    (c.layout bare).IsNeat
  | bare, atom a negated remarks, h => by
      rw [givenTexts] at h
      exact Layout.Tree.isNeat_leaf (a.isClean_text negated h) remarks
  | bare, combine op parts negated remarks, h => by
      rw [givenTexts] at h
      have hparts := isNeat_layouts parts h
      have hseparator : '\n' ∉ op.separator := by cases op <;> decide
      have hopening : '\n' ∉ negationMark negated ++ ['('] := by
        simp [notMem_negationMark negated]
      have hclosing : Text.IsClean [')'] := by decide
      by_cases hbare : (bare && !negated && !parts.isEmpty) = true
      · have hne : layouts parts ≠ [] := by
          cases parts with
          | nil => simp at hbare
          | cons c cs => exact List.cons_ne_nil _ _
        rw [layout, brackets, if_pos hbare]
        exact Layout.Tree.isNeat_node List.not_mem_nil hseparator hparts (Or.inr ⟨rfl, hne⟩)
      · rw [layout, brackets, if_neg hbare]
        exact Layout.Tree.isNeat_node hopening hseparator hparts (Or.inl hclosing)

lemma isNeat_layouts : ∀ cs : List Condition, (∀ t ∈ partsGivenTexts cs, t.IsClean) →
    ∀ t ∈ layouts cs, t.IsNeat
  | [], _ => fun _ ht => absurd ht List.not_mem_nil
  | c :: cs, h => by
      rw [partsGivenTexts, List.forall_mem_append] at h
      rw [layouts, List.forall_mem_cons]
      exact ⟨isNeat_layout false c h.1, isNeat_layouts cs h.2⟩

end

/-- The layout of a call with a condition of clean texts. -/
lemma isNeat_callLayout {text opening : Text} {c : Condition}
    (htext : c.isAlways = true → text.IsClean) (hopening : '\n' ∉ opening)
    (hink : Layout.Tree.hasInk opening = true) (h : ∀ t ∈ c.givenTexts, t.IsClean) :
    (c.callLayout text opening).IsNeat := by
  rw [callLayout]
  split
  · next halways => exact Layout.Tree.isNeat_leaf (htext halways) c.remarks
  · exact Layout.Tree.isNeat_behind hopening hink (isNeat_layout true c h) (by decide)

end Condition

/-! ### Statements -/

namespace Target

/-- The call of a jump to a target of a clean name is on one line. -/
lemma notMem_callHead {target : Target} (h : ∀ t ∈ target.label?.toList, t.IsClean)
    (isAlways : Bool) : '\n' ∉ target.callHead isAlways := by
  have hhead (call opening : Text) (hcall : '\n' ∉ call) (hopening : '\n' ∉ opening) :
      '\n' ∉ call ++ (if isAlways then [] else "If".toList) ++ opening := by
    have hmark : '\n' ∉ (if isAlways then [] else "If".toList) := by cases isAlways <;> decide
    exact List.not_mem_append (List.not_mem_append hcall hmark) hopening
  cases target with
  | label name =>
      have hname := (h name (List.mem_singleton_self name)).oneLine
      exact List.not_mem_append (hhead "Goto".toList ['('] (by decide) (by decide)) hname
  | node n =>
      exact List.not_mem_append (hhead "Goto".toList "Internal(".toList (by decide) (by decide))
        (Text.notMem_ofNat n)
  | skip commands =>
      exact List.not_mem_append (hhead "SkipLines".toList ['('] (by decide) (by decide))
        (Text.notMem_ofNat commands)

lemma hasInk_callHead (target : Target) (isAlways : Bool) (t : Text) :
    Layout.Tree.hasInk (target.callHead isAlways ++ t) = true := by
  cases target <;> cases isAlways <;> rfl

end Target

namespace Action

/-- The given texts of an action. -/
def givenTexts : Action → List Text
  | noOp => []
  | command c => c.name :: c.arguments.flatMap Value.givenTexts
  | label _ => []
  | script code _ => [code]
  | loopStart code _ => [code]
  | loopEnd => []
  | fillSkip name => [name]
  | reserveSkip name => [name]
  | finish _ c => c.givenTexts
  | assign _ variableName _ c => variableName.toList ++ c.givenTexts
  | jump target c => target.label?.toList ++ c.givenTexts
  | wait c _ => c.givenTexts

/-- **The layout of an action of clean texts is neat.** -/
lemma isNeat_layout {a : Action} (h : ∀ t ∈ a.givenTexts, t.IsClean) : a.layout.IsNeat := by
  have hleaf {t : Text} (ht : t.IsClean) := Layout.Tree.isNeat_leaf ht []
  have hend : Text.IsClean ");".toList := by decide
  cases a with
  | noOp => exact hleaf (by decide)
  | command c =>
      rw [givenTexts, List.forall_mem_cons] at h
      refine hleaf (Text.isClean_append ?_ hend)
      simp [h.1.oneLine, notMem_argumentsText c.layers h.2]
  | label n =>
      refine hleaf (Text.isClean_append ?_ (u := [':']) (by decide))
      simp [Label.name, Text.notMem_ofNat n]
  | script code declared => exact hleaf (h code (List.mem_singleton_self code))
  | loopStart code node =>
      exact hleaf (Text.isClean_append (h code (List.mem_singleton_self code)).oneLine (by decide))
  | loopEnd => exact hleaf (by decide)
  | fillSkip name =>
      refine hleaf (Text.isClean_append ?_ (u := "\");".toList) (by decide))
      simp [(h name (List.mem_singleton_self name)).oneLine]
  | reserveSkip name =>
      refine hleaf (Text.isClean_append ?_ (u := "\");".toList) (by decide))
      simp [(h name (List.mem_singleton_self name)).oneLine]
  | finish ending c =>
      have hname (isAlways : Bool) : '\n' ∉ ending.callName isAlways := by
        cases ending <;> cases isAlways <;> decide
      have hink : Layout.Tree.hasInk (ending.callName false ++ ['(']) = true := by
        cases ending <;> rfl
      rw [layout_finish]
      refine Condition.isNeat_callLayout (fun halways => ?_) ?_ hink h
      · refine Text.isClean_append ?_ hend
        simp [halways, hname]
      · simp [hname]
  | assign group variableName op c =>
      rw [givenTexts, List.forall_mem_append] at h
      have hop : '\n' ∉ op.symbol := by cases op <;> decide
      refine Layout.Tree.isNeat_between ?_ (c.isNeat_layout true h.2) (by decide)
      simp [assignHead, (isClean_assignee group h.1).oneLine, hop]
  | jump target c =>
      rw [givenTexts, List.forall_mem_append] at h
      rw [layout_jump]
      refine Condition.isNeat_callLayout (fun halways => ?_) ?_ (target.hasInk_callHead _ _) h.2
      · refine Text.isClean_append ?_ hend
        simp [halways, Target.notMem_callHead h.1]
      · simp [Target.notMem_callHead h.1]
  | wait c isSpecial =>
      exact Layout.Tree.isNeat_behind (by decide) (by decide) (c.isNeat_layout true h) hend

end Action

namespace Statement

/-- The given texts of a statement: its labels and those of what it does, the statements nested in
it left out. The wish for the name of a label is not printed. -/
def givenTexts : Statement → List Text
  | simple tags a => tags.labels ++ a.givenTexts
  | loop tags code _ => tags.labels ++ [code]
  | choice tags c _ _ => tags.labels ++ c.givenTexts

/-- A statement whose own texts and remarks are clean. -/
structure IsClean (s : Statement) : Prop where
  texts : ∀ t ∈ s.givenTexts, t.IsClean
  remarks : ∀ r ∈ s.ownRemarks, r.IsClean

variable {s : Statement}

namespace IsClean

lemma labels (h : s.IsClean) : ∀ t ∈ s.tags.labels, t.IsClean := by
  have htexts := h.texts
  cases s <;> exact (List.forall_mem_append.mp htexts).1

lemma tagRemarks (h : s.IsClean) : ∀ r ∈ s.tags.remarks, r.IsClean := fun r hr =>
  h.remarks r (List.mem_append_left _ hr)

lemma layoutRemarks (h : s.IsClean) : ∀ r ∈ s.layout.allRemarks, r.IsClean := fun r hr =>
  h.remarks r (s.ownRemarks_perm.mem_iff.mpr (List.mem_append_right _ hr))

/-- **The layout of a clean statement is neat.** -/
lemma isNeat_layout (h : s.IsClean) : s.layout.IsNeat := by
  have htexts := h.texts
  cases s with
  | simple tags a => exact Action.isNeat_layout (List.forall_mem_append.mp htexts).2
  | loop tags code body =>
      have hcode := (List.forall_mem_append.mp htexts).2 code (List.mem_singleton_self code)
      exact Layout.Tree.isNeat_leaf (Text.isClean_append hcode.oneLine (by decide)) []
  | choice tags c yes no =>
      have hcondition := c.isNeat_layout true (List.forall_mem_append.mp htexts).2
      exact Layout.Tree.isNeat_between (by decide) hcondition (by decide)

end IsClean

end Statement

end EventScript
