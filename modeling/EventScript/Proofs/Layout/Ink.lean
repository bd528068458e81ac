import EventScript.Proofs.Layout.Woven

/-!
Ink: the characters of a printed text that are no blanks, counted.

Breaking the line of a statement moves its remarks and adds blanks, so the text that is printed
depends on where it is broken. How often a character that is no blank stands in it does not.

* `Remark.ink`: how often a character stands in the text of remarks;
* `Layout.Weave.count`: a text with remarks woven in has the ink of the text and of the remarks;
* `Layout.Tree.count_renderLine`: the ink of the lines of a statement.
-/

namespace EventScript

namespace Remark

/-- How often a character stands in the text of remarks. -/
def ink (x : Char) (rs : List Remark) : Nat := (rs.flatMap Remark.text).count x

lemma ink_cons (x : Char) (r : Remark) (rs : List Remark) :
    ink x (r :: rs) = r.text.count x + ink x rs := by
  rw [ink, List.flatMap_cons, List.count_append]
  rfl

lemma ink_append (x : Char) (rs ss : List Remark) : ink x (rs ++ ss) = ink x rs + ink x ss := by
  rw [ink, List.flatMap_append, List.count_append]
  rfl

/-- The ink of remarks is that of those above and that of those at the end of a line. -/
lemma ink_filter (x : Char) (rs : List Remark) :
    ink x (rs.filter isAbove) + ink x (rs.filter isTrailing) = ink x rs := by
  induction rs with
  | nil => rfl
  | cons r rs ih =>
      cases h : r.isAbove with
      | true =>
          have ht : r.isTrailing = false := by rw [isTrailing, h]; rfl
          simp only [List.filter_cons, h, ht, if_true, ink_cons]
          simp only [Bool.false_eq_true, if_false]
          omega
      | false =>
          have ht : r.isTrailing = true := by rw [isTrailing, h]; rfl
          simp only [List.filter_cons, h, ht, if_true, ink_cons]
          simp only [Bool.false_eq_true, if_false]
          omega

end Remark

/-- A character that is no blank stands in a text as often as in what is left of it. -/
lemma Text.count_squeeze {x : Char} (hx : isBlank x = false) (t : Text) :
    (squeeze t).count x = t.count x := by
  rw [squeeze, List.count_filter (by rw [hx]; rfl)]

lemma Text.count_eq_zero_of_squeeze {x : Char} (hx : isBlank x = false) {t : Text}
    (ht : squeeze t = []) : t.count x = 0 := by
  rw [← count_squeeze hx, ht]
  rfl

namespace Layout

variable {x : Char}

/-- **Weaving remarks in adds their ink**, if the indents are blanks. -/
lemma Weave.count (hx : Text.isBlank x = false) {indents : Text → Prop}
    (hindents : ∀ ⦃sp⦄, indents sp → sp.count x = 0) {a b : Place} {plain text : Text}
    {rs : List Remark} (h : Weave indents a plain text rs b) :
    text.count x = plain.count x + Remark.ink x rs := by
  have hlineEnd : (['\n'] : Text).count x = 0 :=
    Text.count_eq_zero_of_squeeze hx Text.squeeze_lineEnd
  induction h with
  | nil => rfl
  | code _ _ _ ih =>
      rw [List.count_cons, List.count_cons, ih]
      omega
  | lineEnd _ ih =>
      rw [List.count_cons, List.count_cons, ih]
      omega
  | @above b sp plain text r rs hsp _ _ ih =>
      have hline : (Remark.lineAt sp r.text).count x = r.text.count x := by
        rw [Remark.lineAt]
        split
        · next hempty => rw [hlineEnd, List.isEmpty_iff.mp hempty, List.count_nil]
        · rw [List.count_append, List.count_append, hindents hsp, hlineEnd]
          omega
      rw [List.count_append, hline, ih, Remark.ink_cons]
      omega
  | trailing _ _ ih =>
      rw [List.count_append, ih, Remark.ink_cons]
      omega

/-- **The ink of the lines of a statement**, with remarks at the end of its text: that of its text
without breaks, of what stands in front, and of all remarks. -/
theorem Tree.count_renderLine (hx : Text.isBlank x = false) {p : Page}
    (hp : Text.squeeze p.indent = []) {t : Tree} (ht : t.isTidy = true) {sp : Text}
    (hsp : Text.squeeze sp = []) (before : Text) (rs : List Remark) :
    (renderLine p sp before (Remark.suffix rs) t).count x =
      before.count x + t.oneLine.count x + Remark.ink x t.allRemarks +
        Remark.ink x (rs.filter Remark.isTrailing) := by
  have hstep : ∀ ⦃u : Text⦄, Text.squeeze u = [] → Text.squeeze (u ++ p.indent) = [] := by
    intro u hu
    rw [Text.squeeze_append, hu, hp, List.append_nil]
  obtain ⟨new, xs, ys, hweave, habove, htrailing, hboth⟩ :=
    weave_renderLine hstep ht hsp before [] rs
  have hcount := hweave.count hx fun u hu => Text.count_eq_zero_of_squeeze hx hu
  have hplain : (renderLine p sp before [] t.stripped).count x =
      before.count x + t.oneLine.count x := by
    rw [← Text.count_squeeze hx, squeeze_renderLine hp hsp before [] t.allRemarks_stripped,
      oneLine_stripped, Text.squeeze_nil, List.append_nil, List.count_append,
      Text.count_squeeze hx, Text.count_squeeze hx]
  have hnew : Remark.ink x new =
      Remark.ink x t.allRemarks + Remark.ink x (rs.filter Remark.isTrailing) := by
    have hold := Remark.ink_filter x t.allRemarks
    rw [← hboth, Remark.ink_append] at hold
    rw [← Remark.ink_filter x new, habove, htrailing, Remark.ink_append, Remark.ink_append]
    omega
  rw [List.nil_append, hplain, hnew] at hcount
  omega

end Layout

end EventScript
