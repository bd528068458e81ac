import EventScript.Proofs.Layout.Woven

/-!
The layout of a fragment does not depend on its remarks, and these come out in order.

Where a line is ended in front of a break, blanks at its end are trimmed. In a solid fragment no
text that a line may end with has any, so trimming does not reach what stands further in front.

* `Layout.Tree.isSolid`: fragments whose unbroken texts end in characters that are no blanks. Solid
  fragments are tidy (`isTidy_of_isSolid`);
* `Layout.Tree.exists_lines_of_isSolid`: the lines of a solid statement are those of the same
  statement without remarks, with the remarks put in, each kind in the order of the fragment.
-/

namespace EventScript

namespace Text

/-- Whether the last character of a text is there and no blank. -/
def endsInInk (t : Text) : Bool := t.getLast?.any fun c => !isBlank c

lemma hasInk_of_endsInInk {t : Text} (h : endsInInk t = true) :
    Layout.Tree.hasInk t = true := by
  obtain ⟨c, hc, hink⟩ := (Option.any_eq_true _ _).mp h
  exact List.any_eq_true.mpr ⟨c, List.mem_of_getLast? hc, hink⟩

end Text

namespace Layout

/-- The indents further in than a text. -/
def Page.IsIndentBehind (p : Page) (sp u : Text) : Prop := ∃ depth, u = sp ++ p.indentAt depth

lemma Page.isIndentBehind_self (p : Page) (sp : Text) : p.IsIndentBehind sp sp :=
  ⟨0, (List.append_nil sp).symm⟩

lemma Page.IsIndentBehind.append_indent {p : Page} {sp u : Text} (h : p.IsIndentBehind sp u) :
    p.IsIndentBehind sp (u ++ p.indent) := by
  obtain ⟨depth, rfl⟩ := h
  exact ⟨depth + 1, by rw [indentAt_succ, List.append_assoc]⟩

namespace Tree

mutual

/-- Whether the text of every fragment without parts ends in a character that is no blank. -/
def isSolid : Tree → Bool
  | node opening parts _ closing _ =>
    if parts.isEmpty then Text.endsInInk (opening ++ closing) else areSolid parts

/-- Whether all parts of a node are solid. -/
def areSolid : List Tree → Bool
  | [] => true
  | t :: ts => t.isSolid && areSolid ts

end

mutual

/-- The last line of a solid fragment is more than blanks. -/
lemma isAnchored_of_isSolid : ∀ t : Tree, t.isSolid = true → t.isAnchored = true
  | node opening parts separator closing remarks, h => by
      rw [isSolid] at h
      rw [isAnchored, Bool.or_eq_true]
      split at h
      · next hparts =>
          have hink := Text.hasInk_of_endsInInk h
          rw [hasInk_append, Bool.or_eq_true] at hink
          rw [if_pos hparts]
          exact hink.symm
      · next hparts =>
          rw [if_neg hparts]
          exact Or.inr (lastAnchored_of_areSolid parts (by simpa using hparts) h)

lemma lastAnchored_of_areSolid : ∀ ts : List Tree, ts ≠ [] → areSolid ts = true →
    lastAnchored ts = true
  | [], hne, h => absurd rfl hne
  | [t], _, h => by
      rw [areSolid, areSolid, Bool.and_true] at h
      exact isAnchored_of_isSolid t h
  | t :: u :: ts, _, h => by
      rw [areSolid, Bool.and_eq_true] at h
      exact lastAnchored_of_areSolid (u :: ts) (List.cons_ne_nil _ _) h.2

end

mutual

/-- Every line of a solid fragment that is trimmed is more than blanks. -/
lemma isTidy_of_isSolid : ∀ t : Tree, t.isSolid = true → t.isTidy = true
  | node opening [] separator closing remarks, h => rfl
  | node opening (t :: ts) separator closing remarks, h => by
      rw [isSolid, List.isEmpty_cons, if_neg Bool.false_ne_true] at h
      refine isTidy_node (areTidy_of_areSolid (t :: ts) h) ?_ opening separator closing remarks
      intro first second rest hparts
      rw [hparts, areSolid, Bool.and_eq_true] at h
      rw [isAnchored_of_isSolid first h.1, Bool.or_true]

lemma areTidy_of_areSolid : ∀ ts : List Tree, areSolid ts = true → areTidy ts = true
  | [], h => rfl
  | t :: ts, h => by
      rw [areSolid, Bool.and_eq_true] at h
      rw [areTidy, isTidy_of_isSolid t h.1, areTidy_of_areSolid ts h.2]
      rfl

end

/-- **The layout of a solid statement does not depend on its remarks.** Its lines are those that it
has without remarks, with the remarks put in: each one above on a line of its own, and the trailing
ones behind the code of a line. Those above come in the order of the fragment, and so do the
trailing ones. After a line none wait. -/
theorem exists_lines_of_isSolid {t : Tree} (h : t.isSolid = true) (p : Page)
    (sp before behind : Text) :
    ∃ lines : List WovenLine, (∀ l ∈ lines, l.IsWoven (p.IsIndentBehind sp)) ∧
      renderLine p sp before behind t.stripped = lines.flatMap WovenLine.plain ∧
      renderLine p sp before behind t = lines.flatMap WovenLine.text ∧
      (lines.flatMap WovenLine.remarks).filter Remark.isAbove =
        t.allRemarks.filter Remark.isAbove ∧
      (lines.flatMap WovenLine.remarks).filter Remark.isTrailing =
        t.allRemarks.filter Remark.isTrailing ∧
      ∀ (column trailing : Nat) (line indent : Text),
        ((render p sp column trailing t .none).2.line line indent).2.isEmpty = true := by
  obtain ⟨new, xs, ys, hweave, habove, htrailing, hboth⟩ :=
    weave_renderLine (fun _ => Page.IsIndentBehind.append_indent) (isTidy_of_isSolid t h)
      (p.isIndentBehind_self sp) before behind []
  obtain ⟨lines, hlines⟩ := hweave.exists_lines
  have htext := hlines.text
  rw [Remark.suffix_nil, List.append_nil] at htext
  rw [List.filter_nil, List.append_nil, hboth] at htrailing
  refine ⟨lines, hlines.woven, hlines.plain, htext, ?_, ?_, fun _ _ _ _ => rfl⟩
  · rw [← hlines.remarks, habove]
  · rw [← hlines.remarks, htrailing]

/-- A wait for two flags, with remarks on the combination and on both flags. -/
def remarkedFlags : Tree :=
  behind "WaitFor(".toList
    (node [] [
      leaf "Flag(1)".toList [.ofComment .trailing "// one".toList, .ofComment .above "// b".toList],
      leaf "Flag(2)".toList [.ofComment .blank [], .ofComment .trailing "// two".toList]]
      " && ".toList [] [.ofComment .above "// a".toList, .ofComment .trailing "// both".toList])
    ");".toList

/-- On a narrow page the remarks above wait for the first line that is not broken. -/
theorem exists_lines_of_isSolid_remarkedFlags :
    remarkedFlags.isSolid = true ∧
      renderLine ⟨20, "  ".toList⟩ [] [] [] remarkedFlags =
        "WaitFor(
  Flag(1) // both // one
    // a
    // b

    && Flag(2)); // two
".toList ∧
      ∃ lines : List WovenLine,
        renderLine ⟨20, "  ".toList⟩ [] [] [] remarkedFlags.stripped =
          lines.flatMap WovenLine.plain ∧
        renderLine ⟨20, "  ".toList⟩ [] [] [] remarkedFlags = lines.flatMap WovenLine.text ∧
        (lines.flatMap WovenLine.remarks).filter Remark.isAbove =
          remarkedFlags.allRemarks.filter Remark.isAbove ∧
        (lines.flatMap WovenLine.remarks).filter Remark.isTrailing =
          remarkedFlags.allRemarks.filter Remark.isTrailing := by
  have hsolid : remarkedFlags.isSolid = true := by decide
  obtain ⟨lines, -, hplain, htext, habove, htrailing, -⟩ :=
    exists_lines_of_isSolid hsolid ⟨20, "  ".toList⟩ [] [] []
  exact ⟨hsolid, by decide, lines, hplain, htext, habove, htrailing⟩

end Tree

end Layout

end EventScript
