import EventScript.Layout.Statement
import EventScript.Proofs.Reference.Dangling
import EventScript.Proofs.Text.Squeeze

/-!
A negation turned over.

A negation is printed as a mark, or as the opposite operator of a comparison. Either way the text of
a condition gains or loses a sign: an exclamation mark, or the angle of an operator. Nothing else of
the text changes, whatever stands around it.

* `Text.SignsDiffer`: two texts have not equally many signs;
* `Condition.Flipped`: two conditions differ in one negation, at any depth, and in nothing else;
* `Condition.Flipped.signsDiffer`: so their texts have not equally many signs.
-/

namespace EventScript

namespace Text

/-- The signs that a negation may add to a text or take away from it. -/
def signs : Text := ['!', '<']

lemma isBlank_of_mem_signs {x : Char} (hx : x ∈ signs) : isBlank x = false := by
  rw [signs, List.mem_cons, List.mem_singleton] at hx
  obtain rfl | rfl := hx <;> rfl

/-- Two texts have not equally many signs of some kind. -/
def SignsDiffer (t u : Text) : Prop := ∃ x ∈ signs, t.count x ≠ u.count x

variable {t u : Text}

lemma SignsDiffer.symm (h : SignsDiffer t u) : SignsDiffer u t := by
  obtain ⟨x, hx, hne⟩ := h
  exact ⟨x, hx, hne.symm⟩

/-- What stands around two texts changes nothing about that. -/
lemma SignsDiffer.around (h : SignsDiffer t u) (before behind : Text) :
    SignsDiffer (before ++ t ++ behind) (before ++ u ++ behind) := by
  obtain ⟨x, hx, hne⟩ := h
  refine ⟨x, hx, ?_⟩
  simp only [List.count_append]
  omega

/-- A joined text around one of its pieces. -/
lemma intercalate_append_cons (sep : Text) (ts : List Text) (t : Text) (us : List Text) :
    sep.intercalate (ts ++ t :: us) =
      (ts.flatMap fun u => u ++ sep) ++ t ++ us.flatMap fun u => sep ++ u := by
  induction ts with
  | nil => rw [List.nil_append, intercalate_cons, List.flatMap_nil, List.nil_append]
  | cons u ts ih =>
      have hcons : sep.intercalate (u :: (ts ++ t :: us)) =
          u ++ sep ++ sep.intercalate (ts ++ t :: us) := by
        cases ts <;> simp
      rw [List.cons_append, hcons, ih, List.flatMap_cons]
      simp only [List.append_assoc]

end Text

/-! ### Conditions without parts -/

lemma signsDiffer_negationMark (negated : Bool) :
    Text.SignsDiffer (negationMark negated) (negationMark !negated) := by
  cases negated with
  | false => exact ⟨'!', by decide, by decide⟩
  | true => exact ⟨'!', by decide, by decide⟩

/-- The operators of opposite relations differ in a sign. -/
lemma Comparison.signsDiffer_symbol (relation : Comparison) :
    Text.SignsDiffer relation.symbol relation.opposite.symbol := by
  cases relation with
  | equal => exact ⟨'!', by decide, by decide⟩
  | notEqual => exact ⟨'!', by decide, by decide⟩
  | greater => exact ⟨'<', by decide, by decide⟩
  | less => exact ⟨'<', by decide, by decide⟩
  | greaterOrEqual => exact ⟨'<', by decide, by decide⟩
  | lessOrEqual => exact ⟨'<', by decide, by decide⟩

/-- A text with a negation mark in front. -/
lemma signsDiffer_mark_append (negated : Bool) (t : Text) :
    Text.SignsDiffer (negationMark negated ++ t) (negationMark (!negated) ++ t) := by
  have h := (signsDiffer_negationMark negated).around [] t
  rwa [List.nil_append, List.nil_append] at h

lemma Atom.signsDiffer_text (a : Atom) (negated : Bool) :
    Text.SignsDiffer (a.text negated) (a.text !negated) := by
  cases a with
  | compare relation left right =>
      have hsymbol : Text.SignsDiffer (if negated then relation.opposite else relation).symbol
          (if !negated then relation.opposite else relation).symbol := by
        cases negated with
        | false => exact relation.signsDiffer_symbol
        | true => exact relation.signsDiffer_symbol.symm
      have h := hsymbol.around (left.text ++ [' ']) ([' '] ++ right.text)
      simpa [Atom.text] using h
  | query q => exact signsDiffer_mark_append negated q.text
  | read group compiled name =>
      simp only [Atom.text, List.append_assoc]
      exact signsDiffer_mark_append negated _
  | unreadable message =>
      cases message with
      | none => exact signsDiffer_mark_append negated _
      | some message =>
          simp only [Atom.text, List.append_assoc]
          exact signsDiffer_mark_append negated _

namespace Condition

/-- Brackets with a negation in them have a mark more. -/
lemma signsDiffer_brackets (bare negated : Bool) (parts : List Condition) (t : Text) :
    Text.SignsDiffer ((brackets bare negated parts).1 ++ t ++ (brackets bare negated parts).2)
      ((brackets bare (!negated) parts).1 ++ t ++ (brackets bare (!negated) parts).2) := by
  have hcount : ∀ b : Bool,
      ((brackets bare b parts).1 ++ t ++ (brackets bare b parts).2).count '!' =
        t.count '!' + if b then 1 else 0 := by
    intro b
    cases hbare : bare && !b && !parts.isEmpty with
    | true =>
        have hb : b = false := by
          cases b with
          | false => rfl
          | true => simp at hbare
        rw [brackets, hbare, hb]
        simp
    | false =>
        rw [brackets, hbare]
        cases b with
        | false => simp [negationMark, List.count_append]
        | true => simp [negationMark, List.count_append]
  refine ⟨'!', by decide, ?_⟩
  rw [hcount, hcount]
  cases negated with
  | false => simp
  | true => simp

/-! ### Conditions -/

/-- Two conditions differ in one negation: their own, or that of one part, at any depth. -/
inductive Flipped : Condition → Condition → Prop
  | here (c : Condition) : Flipped c c.negate
  | part {c d : Condition} (op : Connective) (front back : List Condition) (negated : Bool)
      (remarks : List Remark) (h : Flipped c d) :
      Flipped (combine op (front ++ c :: back) negated remarks)
        (combine op (front ++ d :: back) negated remarks)

namespace Flipped

variable {c d : Condition}

/-- The sentinel for no condition stays one. -/
lemma isAlways (h : c.Flipped d) : d.isAlways = c.isAlways := by
  cases h with
  | here => cases c <;> rfl
  | part op front back negated remarks h => rfl

/-- A flipped condition has the same remarks on itself. -/
lemma remarks_eq (h : c.Flipped d) : d.remarks = c.remarks := by
  cases h with
  | here => cases c <;> rfl
  | part op front back negated remarks h => rfl

/-- The layout of a flipped condition has the same remarks. -/
lemma allRemarks_layout (h : c.Flipped d) (bare : Bool) :
    (d.layout bare).allRemarks = (c.layout bare).allRemarks := by
  induction h generalizing bare with
  | here c => cases c <;> rfl
  | part op front back negated remarks _ ih =>
      simp only [layout, Layout.Tree.allRemarks, Layout.Tree.partRemarks_eq_flatMap, layouts_eq_map,
        List.map_append, List.map_cons, List.flatMap_append, List.flatMap_cons, ih]

/-- A flipped condition reads the same variables. -/
lemma reads_iff (h : c.Flipped d) (name : Text) : d.Reads name ↔ c.Reads name := by
  induction h with
  | here c =>
      cases c with
      | atom a negated remarks =>
          have hread (b : Bool) : (atom a b remarks).readName? = some name ↔
              (atom a b remarks).Reads name := readName?_eq_some_iff
          rw [negate, ← hread, ← hread]
          cases a <;> rfl
      | combine op parts negated remarks => rw [negate, reads_combine_iff, reads_combine_iff]
  | part op front back negated remarks _ ih =>
      rw [reads_combine_iff, reads_combine_iff]
      simp [or_and_right, exists_or, ih]

/-- **The texts of conditions that differ in one negation have not equally many signs.** -/
theorem signsDiffer (h : c.Flipped d) (bare : Bool) :
    Text.SignsDiffer (c.layout bare).oneLine (d.layout bare).oneLine := by
  induction h generalizing bare with
  | here c =>
      cases c with
      | atom a negated remarks =>
          simpa [layout, negate, Layout.Tree.leaf, Layout.Tree.oneLine, Layout.Tree.partTexts]
            using a.signsDiffer_text negated
      | combine op parts negated remarks =>
          simpa only [layout, negate, Layout.Tree.oneLine]
            using signsDiffer_brackets bare negated parts _
  | @part c d op front back negated remarks _ ih =>
      have hbrackets : brackets bare negated (front ++ d :: back) =
          brackets bare negated (front ++ c :: back) := by
        simp [brackets]
      have hline : ∀ x : Condition, ((combine op (front ++ x :: back) negated remarks).layout
          bare).oneLine = (brackets bare negated (front ++ x :: back)).1 ++
            op.separator.intercalate (front.map (fun y => (layout false y).oneLine) ++
              (x.layout false).oneLine :: back.map fun y => (layout false y).oneLine) ++
            (brackets bare negated (front ++ x :: back)).2 := by
        intro x
        simp only [layout, Layout.Tree.oneLine, layouts_eq_map, Layout.Tree.partTexts_eq_map,
          List.map_append, List.map_cons, List.map_map]
        rfl
      rw [hline, hline, hbrackets, Text.intercalate_append_cons, Text.intercalate_append_cons]
      exact ((ih false).around _ _).around _ _

end Flipped

end Condition

end EventScript
