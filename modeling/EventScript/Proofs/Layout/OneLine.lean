import EventScript.Layout.Statement
import EventScript.Proofs.Layout.Squeeze

/-!
The text of a statement and its layout without breaks.

Both print a condition in the place of an argument, where it stands between parentheses already, and
take away its own ones for that. The text looks at the two ends of what it prints, and the layout at
the structure of the condition. So they part where the ends are parentheses that do not belong
together, and where there is nothing between those that do.

* `Statement.argument?`: the condition that a statement prints as an argument;
* `Condition.isMistaken`: the conditions of which the text takes away the wrong ends, or none;
* `Statement.oneLine_layout_eq_text_iff`: the layout and the text of a statement agree unless its
  argument is mistaken;
* `Statement.oneLine_layout_ne_text`: a statement on which they part.
-/

namespace EventScript

/-! ### Ends of a text -/

namespace Text

/-- Whether a text begins and ends with a parenthesis, with something in between. -/
def isEnclosed (t : Text) : Bool :=
  decide (3 ≤ t.length ∧ t.head? = some '(' ∧ t.getLast? = some ')')

/-- Nothing is taken away from a text exactly if it is not enclosed. -/
lemma unwrap_eq_self_iff (t : Text) : unwrap t = t ↔ isEnclosed t = false := by
  rw [unwrap, isEnclosed, decide_eq_false_iff_not]
  split
  · next h =>
      have hlength : t.tail.dropLast ≠ t := by
        intro heq
        have hlt := congrArg List.length heq
        rw [List.length_dropLast, List.length_tail] at hlt
        omega
      exact iff_of_false hlength (not_not_intro h)
  · next h => exact iff_of_true rfl h

/-- A text in parentheses loses them, unless it is empty. -/
lemma unwrap_parens (t : Text) :
    unwrap (['('] ++ t ++ [')']) = if t = [] then "()".toList else t := by
  cases t with
  | nil => rfl
  | cons c t =>
      have hlast : (['('] ++ (c :: t) ++ [')']).getLast? = some ')' := List.getLast?_concat
      have htail : (['('] ++ (c :: t) ++ [')']).tail.dropLast = c :: t := List.dropLast_concat
      rw [unwrap, if_pos ⟨by simp, rfl, hlast⟩, htail, if_neg (List.cons_ne_nil c t)]

lemma unwrap_of_head?_ne {t : Text} (h : t.head? ≠ some '(') : unwrap t = t := by
  rw [unwrap, if_neg fun henclosed => h henclosed.2.1]

end Text

@[simp] lemma Layout.Tree.oneLine_between (opening closing : Text) (t : Layout.Tree) :
    (Layout.Tree.between opening t closing).oneLine = opening ++ t.oneLine ++ closing := by
  simp [between, oneLine, partTexts]

/-! ### Arguments -/

namespace Condition

/-- Whether the text of a condition as an argument is not what its structure says: an atom that
begins and ends with a parenthesis of its own, or a combination of one part without a text. -/
def isMistaken : Condition → Bool
  | atom a negated _ => Text.isEnclosed (a.text negated)
  | combine _ [c] false _ => c.text.isEmpty
  | combine .. => false

/-- As an argument a negated combination keeps its parentheses in both. -/
lemma oneLine_layout_negated (op : Connective) (parts : List Condition) (remarks : List Remark) :
    ((combine op parts true remarks).layout true).oneLine =
      (combine op parts true remarks).bareText := by
  have hlayout : (combine op parts true remarks).layout true =
      (combine op parts true remarks).layout false := by
    rw [layout, layout]
    simp [brackets]
  have hhead : (combine op parts true remarks).text.head? ≠ some '(' := by
    simp [text, negationMark]
  rw [hlayout, oneLine_layout, bareText, Text.unwrap_of_head?_ne hhead]

/-- As an argument a combination with parts has no parentheses on its layout. -/
lemma oneLine_layout_parts (op : Connective) (c : Condition) (cs : List Condition)
    (remarks : List Remark) : ((combine op (c :: cs) false remarks).layout true).oneLine =
      op.separator.intercalate (texts (c :: cs)) := by
  have hbrackets : brackets true false (c :: cs) = ([], []) := rfl
  rw [layout, hbrackets]
  simp [Layout.Tree.oneLine, partTexts_layouts]

/-- Nothing is printed for the parts of a combination only if there is a single one without a
text. -/
lemma intercalate_texts_eq_nil_iff (op : Connective) (c : Condition) (cs : List Condition) :
    op.separator.intercalate (texts (c :: cs)) = [] ↔ cs = [] ∧ c.text = [] := by
  have hseparator : op.separator ≠ [] := by cases op <;> decide
  cases cs with
  | nil => simp [texts]
  | cons d ds => simp [texts, List.intercalate_cons_cons, hseparator]

/-- **The two ways to print an argument** agree exactly if the condition is not mistaken. -/
theorem oneLine_layout_eq_bareText_iff (c : Condition) :
    (c.layout true).oneLine = c.bareText ↔ c.isMistaken = false := by
  cases c with
  | atom a negated remarks =>
      have hline : ((atom a negated remarks).layout true).oneLine = a.text negated :=
        Layout.Tree.oneLine_leaf _ _
      rw [hline, bareText, text, isMistaken, ← Text.unwrap_eq_self_iff]
      exact eq_comm
  | combine op parts negated remarks =>
      cases negated with
      | true =>
          have hmistaken : (combine op parts true remarks).isMistaken = false := by
            rcases parts with - | ⟨c, - | ⟨d, ds⟩⟩ <;> rfl
          exact iff_of_true (oneLine_layout_negated op parts remarks) hmistaken
      | false =>
          cases parts with
          | nil => exact iff_of_true (by cases op <;> rfl) rfl
          | cons c cs =>
              have hbare : (combine op (c :: cs) false remarks).bareText =
                  if op.separator.intercalate (texts (c :: cs)) = [] then "()".toList
                  else op.separator.intercalate (texts (c :: cs)) :=
                Text.unwrap_parens _
              have hmistaken : (combine op (c :: cs) false remarks).isMistaken = false ↔
                  ¬ (cs = [] ∧ c.text = []) := by
                cases cs with
                | nil => simp [isMistaken]
                | cons d ds => simp [isMistaken]
              rw [oneLine_layout_parts, hbare, hmistaken, ← intercalate_texts_eq_nil_iff op c cs]
              split
              · next h =>
                  rw [h]
                  exact iff_of_false (by decide) (not_not_intro rfl)
              · next h => exact iff_of_true rfl h

end Condition

/-! ### Statements -/

/-- The condition that an action prints as an argument. A call without a condition prints none. -/
def Action.argument? : Action → Option Condition
  | .finish _ c => if c.isAlways then none else some c
  | .assign _ _ _ c => some c
  | .jump _ c => if c.isAlways then none else some c
  | .wait c _ => some c
  | _ => none

/-- The condition that a statement prints as an argument. -/
def Statement.argument? : Statement → Option Condition
  | .simple _ a => a.argument?
  | .loop .. => none
  | .choice _ c _ _ => some c

namespace Action

/-- An action without an argument is laid out as its text. -/
lemma oneLine_layout_of_argument?_eq_none {a : Action} (h : a.argument? = none) :
    a.layout.oneLine = a.text := by
  have hcall (c : Condition) (h : (if c.isAlways then none else some c) = none) :
      c.isAlways = true := by
    by_contra hnot
    rw [if_neg hnot] at h
    cases h
  cases a with
  | finish ending c => rw [layout, if_pos (hcall c h), Layout.Tree.oneLine_leaf]
  | jump target c => rw [layout, if_pos (hcall c h), Layout.Tree.oneLine_leaf]
  | assign group variableName op c => cases h
  | wait c isSpecial => cases h
  | _ => exact Layout.Tree.oneLine_leaf _ _

/-- An action with an argument prints the same texts around it. -/
lemma exists_around_argument {a : Action} {c : Condition} (h : a.argument? = some c) :
    ∃ opening closing : Text, a.layout.oneLine = opening ++ (c.layout true).oneLine ++ closing ∧
      a.text = opening ++ c.bareText ++ closing := by
  have hcall (d : Condition) (h : (if d.isAlways then none else some d) = some c) :
      d.isAlways = false ∧ d = c := by
    cases hd : d.isAlways with
    | true => simp [hd] at h
    | false => simpa [hd] using h
  cases a with
  | finish ending d =>
      obtain ⟨hd, rfl⟩ := hcall d h
      refine ⟨ending.callName false ++ ['('], ");".toList, ?_, ?_⟩
      · simp [layout, hd]
      · rw [text.eq_def]
        simp [hd]
  | assign group variableName op d =>
      obtain rfl := Option.some.inj h
      refine ⟨assignHead group variableName op, [';'], ?_, ?_⟩
      · rw [layout, Layout.Tree.oneLine_between]
      · rw [text.eq_def]
  | jump target d =>
      obtain ⟨hd, rfl⟩ := hcall d h
      refine ⟨target.callHead false ++ ", ".toList, ");".toList, ?_, ?_⟩
      · simp [layout, hd]
      · rw [text.eq_def]
        simp [hd]
  | wait d isSpecial =>
      obtain rfl := Option.some.inj h
      refine ⟨"WaitFor(".toList, ");".toList, ?_, ?_⟩
      · rw [layout, Layout.Tree.oneLine_behind]
      · rw [text.eq_def]
  | _ => cases h

end Action

namespace Statement

lemma oneLine_layout_of_argument?_eq_none {s : Statement} (h : s.argument? = none) :
    s.layout.oneLine = s.text := by
  cases s with
  | simple tags a => exact Action.oneLine_layout_of_argument?_eq_none h
  | loop tags code body => exact Layout.Tree.oneLine_leaf _ _
  | choice tags c yes no => cases h

lemma exists_around_argument {s : Statement} {c : Condition} (h : s.argument? = some c) :
    ∃ opening closing : Text, s.layout.oneLine = opening ++ (c.layout true).oneLine ++ closing ∧
      s.text = opening ++ c.bareText ++ closing := by
  cases s with
  | simple tags a => exact Action.exists_around_argument h
  | loop tags code body => cases h
  | choice tags d yes no =>
      obtain rfl := Option.some.inj h
      exact ⟨"if (".toList, ')' :: Text.blockOpen, Layout.Tree.oneLine_between _ _ _, rfl⟩

/-- **The layout of a statement without breaks is its text**, unless its argument is mistaken. -/
theorem oneLine_layout_eq_text_iff (s : Statement) :
    s.layout.oneLine = s.text ↔ ∀ c ∈ s.argument?, c.isMistaken = false := by
  cases h : s.argument? with
  | none => exact iff_of_true (oneLine_layout_of_argument?_eq_none h) (by simp)
  | some c =>
      obtain ⟨opening, closing, hline, htext⟩ := exists_around_argument h
      rw [hline, htext, List.append_cancel_right_eq, List.append_cancel_left_eq,
        Condition.oneLine_layout_eq_bareText_iff]
      simp

/-- A wait for two expressions in parentheses to be equal. -/
def parenthesized : Statement :=
  .ofAction (.wait (.atom (.compare .equal (.value (.expression "(a)".toList))
    (.expression "(b)".toList)) false []) false)

/-- The text of the wait has lost the first parenthesis of one expression and the last one of the
other. -/
theorem oneLine_layout_ne_text :
    parenthesized.layout.oneLine = "WaitFor((a) == (b));".toList ∧
      parenthesized.text = "WaitFor(a) == (b);".toList ∧
        parenthesized.layout.oneLine ≠ parenthesized.text := by
  decide

end Statement

end EventScript
