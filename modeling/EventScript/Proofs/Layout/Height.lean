import EventScript.Proofs.Layout.Printed
import EventScript.Proofs.Layout.Width
import EventScript.Proofs.Statement.Stripped

/-!
How many lines a statement takes.

A statement takes a line for each of its lines of code, and one for each remark above. Only the
lines of code depend on the page. A fragment that is broken on a wide page is broken on a narrow one
too, and then its parts stand at the same columns of both, with as much behind them. So the
comparison goes down to the first fragments that fit on the wide page, and these take a single line
there.

* `Layout.CodeLine.IsUncut`: lines of code without a line end in them;
* `Layout.length_printedLines`: lines of code are printed with one line for each remark above;
* `Layout.Tree.lineEnds_renderLine`: the number of lines of a tidy statement;
* `Layout.Tree.length_codeLines_anti`: on a wider page a fragment has no more lines of code;
* `Statement.lineEnds_renderLine_anti`: a statement takes no more lines there.
-/

namespace EventScript

namespace Layout

/-! ### Counting lines of code -/

namespace CodeLine

@[simp] lemma length_opened (mark : Text) (ts : List Tree) (ls : List CodeLine) :
    (opened mark ts ls).length = ls.length := by
  cases ls <;> rfl

@[simp] lemma length_broken (ls : List CodeLine) : (broken ls).length = ls.length := by
  cases ls <;> rfl

@[simp] lemma length_ended (f : Text → Text) (ls : List CodeLine) :
    (ended f ls).length = ls.length := by
  induction ls with
  | nil => rfl
  | cons l ls ih =>
      cases ls with
      | nil => rfl
      | cons m ls =>
          rw [ended, List.length_cons, ih]
          rfl

end CodeLine

namespace Tree

open CodeLine

section Wider

variable {narrow wide : Nat}

/-- A fragment has a line of code. -/
lemma length_codeLines_pos (p : Page) (sp : Text) (column trailing : Nat) (t : Tree) :
    0 < (codeLines p sp column trailing t).length :=
  List.length_pos_of_ne_nil (isStretch_codeLines t sp column trailing).ne_nil

/-- What fits on a page fits on a wider one. -/
lemma fits_mono (h : narrow ≤ wide) {indent : Text} {column trailing : Nat} {t : Tree}
    (hfits : fits ⟨narrow, indent⟩ column trailing t = true) :
    fits ⟨wide, indent⟩ column trailing t = true := by
  rw [fits, decide_eq_true_eq] at hfits ⊢
  exact Nat.le_trans hfits h

mutual

/-- **On a wider page a fragment has no more lines of code.** -/
theorem length_codeLines_anti (h : narrow ≤ wide) (indent : Text) :
    ∀ (t : Tree) (sp : Text) (column trailing : Nat),
      (codeLines ⟨wide, indent⟩ sp column trailing t).length ≤
        (codeLines ⟨narrow, indent⟩ sp column trailing t).length
  | node opening parts separator closing remarks, sp, column, trailing => by
      have hpos := length_codeLines_pos ⟨narrow, indent⟩ sp column trailing
        (node opening parts separator closing remarks)
      by_cases hwide : fits ⟨wide, indent⟩ column trailing
          (node opening parts separator closing remarks) = true
      · rw [codeLines.eq_def ⟨wide, indent⟩]
        simp only
        rw [if_pos hwide]
        exact hpos
      · have hnarrow := fun hfits => hwide (fits_mono h hfits)
        rw [codeLines.eq_def, codeLines.eq_def]
        simp only
        rw [if_neg hwide, if_neg hnarrow]
        match parts with
        | [] => exact Nat.le_refl _
        | [only] =>
            simp only [length_ended, length_opened]
            exact length_codeLines_anti h indent only sp _ _
        | first :: second :: rest =>
            simp only [List.length_append, length_broken, length_ended, length_opened]
            exact Nat.add_le_add (length_codeLines_anti h indent first sp _ _)
              (length_furtherLines_anti h indent (second :: rest) _ _ closing trailing)

lemma length_furtherLines_anti (h : narrow ≤ wide) (indent : Text) :
    ∀ (ts : List Tree) (sp mark closing : Text) (trailing : Nat),
      (furtherLines ⟨wide, indent⟩ sp mark closing trailing ts).length ≤
        (furtherLines ⟨narrow, indent⟩ sp mark closing trailing ts).length
  | [], _, _, _, _ => Nat.le_refl _
  | [last], sp, mark, closing, trailing => by
      simp only [furtherLines, length_ended, length_opened]
      exact length_codeLines_anti h indent last sp _ _
  | middle :: next :: rest, sp, mark, closing, trailing => by
      simp only [furtherLines, List.length_append, length_opened]
      exact Nat.add_le_add (length_codeLines_anti h indent middle sp _ _)
        (length_furtherLines_anti h indent (next :: rest) sp mark closing trailing)

end

end Wider

end Tree

/-! ### Lines without line ends in them -/

namespace CodeLine

/-- A line of code that is one line of text. -/
structure IsUncut (l : CodeLine) : Prop where
  indent : '\n' ∉ l.indent
  code : '\n' ∉ l.code

variable {ls : List CodeLine}

lemma forall_isUncut_opened (h : ∀ l ∈ ls, l.IsUncut) {mark : Text} (hmark : '\n' ∉ mark)
    (ts : List Tree) : ∀ l ∈ opened mark ts ls, l.IsUncut := by
  cases ls with
  | nil => exact h
  | cons l ls =>
      rw [List.forall_mem_cons] at h
      refine List.forall_mem_cons.mpr ⟨⟨h.1.indent, fun hmem => ?_⟩, h.2⟩
      exact (List.mem_append.mp hmem).elim hmark h.1.code

lemma forall_isUncut_broken (h : ∀ l ∈ ls, l.IsUncut) : ∀ l ∈ broken ls, l.IsUncut := by
  cases ls with
  | nil => exact h
  | cons l ls =>
      rw [List.forall_mem_cons] at h
      exact List.forall_mem_cons.mpr ⟨⟨h.1.indent, h.1.code⟩, h.2⟩

lemma forall_isUncut_ended (h : ∀ l ∈ ls, l.IsUncut) {f : Text → Text}
    (hf : ∀ code, '\n' ∉ code → '\n' ∉ f code) : ∀ l ∈ ended f ls, l.IsUncut := by
  induction ls with
  | nil => exact h
  | cons l ls ih =>
      rw [List.forall_mem_cons] at h
      cases ls with
      | nil => exact List.forall_mem_singleton.mpr ⟨h.1.indent, hf _ h.1.code⟩
      | cons m ls => exact List.forall_mem_cons.mpr ⟨h.1, ih h.2⟩

/-- A text without line ends may be put behind lines that are not cut. -/
lemma forall_isUncut_closed (h : ∀ l ∈ ls, l.IsUncut) {closing : Text} (hclosing : '\n' ∉ closing) :
    ∀ l ∈ ended (· ++ closing) ls, l.IsUncut :=
  forall_isUncut_ended h fun _ hcode hmem => (List.mem_append.mp hmem).elim hcode hclosing

end CodeLine

namespace Tree

open CodeLine

section Uncut

variable {p : Page}

mutual

/-- The lines of a fragment have no line ends in them if its text without breaks has none. -/
lemma isUncut_codeLines (hp : '\n' ∉ p.indent) : ∀ (t : Tree) (sp : Text) (column trailing : Nat),
    '\n' ∉ t.oneLine → '\n' ∉ sp → ∀ l ∈ codeLines p sp column trailing t, l.IsUncut
  | node opening parts separator closing remarks, sp, column, trailing, hline, hsp => by
      rw [codeLines.eq_def]
      simp only
      split
      · exact List.forall_mem_singleton.mpr ⟨hsp, hline⟩
      · match parts with
        | [] => exact List.forall_mem_singleton.mpr ⟨hsp, hline⟩
        | [only] =>
            obtain ⟨hopening, honly, -, hclosing⟩ := notMem_oneLine hline
            have hlines := isUncut_codeLines hp only sp (column + opening.length)
              (trailing + closing.length) honly hsp
            exact forall_isUncut_closed (forall_isUncut_opened hlines hopening _) hclosing
        | first :: second :: rest =>
            obtain ⟨hopening, hfirst, hfurther, hclosing⟩ := notMem_oneLine hline
            obtain ⟨hseparator, -⟩ := hfurther second List.mem_cons_self
            have hlines := isUncut_codeLines hp first sp (column + opening.length) 0 hfirst hsp
            rw [List.forall_mem_append]
            refine ⟨forall_isUncut_broken (forall_isUncut_ended
              (forall_isUncut_opened hlines hopening _) fun code hcode hmem => hcode ?_), ?_⟩
            · exact (trimEnd_isPrefix code).subset hmem
            · have hindent : '\n' ∉ sp ++ p.indent := by simp [hsp, hp]
              refine isUncut_furtherLines hp (second :: rest) _ _ closing trailing
                (fun t ht => (hfurther t ht).2) hindent (fun hmem => hseparator ?_) hclosing
              exact (List.dropWhile_sublist _).subset hmem

lemma isUncut_furtherLines (hp : '\n' ∉ p.indent) :
    ∀ (ts : List Tree) (sp mark closing : Text) (trailing : Nat), (∀ t ∈ ts, '\n' ∉ t.oneLine) →
      '\n' ∉ sp → '\n' ∉ mark → '\n' ∉ closing →
        ∀ l ∈ furtherLines p sp mark closing trailing ts, l.IsUncut
  | [], _, _, _, _, _, _, _, _ => fun _ hl => absurd hl List.not_mem_nil
  | [last], sp, mark, closing, trailing, hlines, hsp, hmark, hclosing => by
      have hlast := isUncut_codeLines hp last sp (sp.length + mark.length)
        (closing.length + trailing) (hlines last List.mem_cons_self) hsp
      rw [furtherLines]
      exact forall_isUncut_closed (forall_isUncut_opened hlast hmark []) hclosing
  | middle :: next :: rest, sp, mark, closing, trailing, hlines, hsp, hmark, hclosing => by
      rw [List.forall_mem_cons] at hlines
      have hmiddle := isUncut_codeLines hp middle sp (sp.length + mark.length) 0 hlines.1 hsp
      rw [furtherLines, List.forall_mem_append]
      exact ⟨forall_isUncut_opened hmiddle hmark [],
        isUncut_furtherLines hp (next :: rest) sp mark closing trailing hlines.2 hsp hmark hclosing⟩

end

end Uncut

end Tree

/-! ### Counting printed lines -/

/-- Text without line ends. -/
lemma lineEnds_of_notMem {t : Text} (h : '\n' ∉ t) : Text.lineEnds t = 0 := List.count_eq_zero.mpr h

/-- A remark above is printed as one line. -/
lemma lineEnds_lineAt {sp line : Text} (hsp : '\n' ∉ sp) (hline : '\n' ∉ line) :
    Text.lineEnds (Remark.lineAt sp line) = 1 := by
  rw [Remark.lineAt]
  split
  · rfl
  · rw [Text.lineEnds_append, Text.lineEnds_append, lineEnds_of_notMem hsp,
      lineEnds_of_notMem hline]
    rfl

/-- The remarks at the end of a line have no line ends in them if none has one. -/
lemma notMem_suffix {rs : List Remark} (h : ∀ r ∈ rs, '\n' ∉ r.text) :
    '\n' ∉ Remark.suffix rs := by
  intro hmem
  obtain ⟨t, ht, hmem⟩ := List.mem_flatten.mp hmem
  obtain ⟨r, hr, rfl⟩ := List.mem_map.mp ht
  exact h r (List.mem_of_mem_filter hr) hmem

/-- A line of code is one line of text, with the trailing remarks on it. -/
lemma lineEnds_code {l : CodeLine} (hl : l.IsUncut) (hremarks : ∀ r ∈ l.remarks, '\n' ∉ r.text)
    (number : Nat) : Text.lineEnds (PrintedLine.code number l).text = 1 := by
  rw [PrintedLine.text, Text.lineEnds_append, Text.lineEnds_append, Text.lineEnds_append,
    lineEnds_of_notMem hl.indent, lineEnds_of_notMem hl.code,
    lineEnds_of_notMem (notMem_suffix hremarks)]
  rfl

/-- Every printed line is one line of text. -/
lemma lineEnds_of_mem_printedLines (ls : List CodeLine) (hls : ∀ l ∈ ls, l.IsUncut)
    (hremarks : ∀ l ∈ ls, ∀ r ∈ l.remarks, '\n' ∉ r.text) :
    ∀ (waiting : List (Nat × Remark)) (number : Nat), (∀ w ∈ waiting, '\n' ∉ w.2.text) →
      ∀ x ∈ printedLines waiting number ls, Text.lineEnds x.text = 1 :=
  forall_mem_printedLines ls (fun l hl => lineEnds_code (hls l hl) (hremarks l hl))
    (fun l hl _ _ hr => lineEnds_lineAt (hls l hl).indent hr) hremarks

/-- **Lines of code are printed with one line for each remark above**; those that are left are not
printed yet. -/
lemma length_printedLines (ls : List CodeLine) :
    ∀ (waiting : List (Nat × Remark)) (number : Nat),
      (printedLines waiting number ls).length + (leftBehind waiting number ls).length =
        waiting.length + ls.length + (ls.flatMap CodeLine.above).length := by
  induction ls with
  | nil => exact fun waiting _ => Nat.add_comm 0 waiting.length
  | cons l ls ih =>
      intro waiting number
      have hrest := ih (l.left waiting number) (number + 1)
      have hdue : (l.printedAbove waiting number).length + (l.left waiting number).length =
          waiting.length + l.above.length := by
        rw [CodeLine.printedAbove, CodeLine.left]
        split <;> simp [CodeLine.due]
      rw [printedLines, leftBehind, List.length_append, List.length_cons, List.length_cons,
        List.flatMap_cons, List.length_append]
      omega

lemma lineEnds_flatMap_text (lines : List PrintedLine) (h : ∀ x ∈ lines, Text.lineEnds x.text = 1) :
    Text.lineEnds (lines.flatMap PrintedLine.text) = lines.length := by
  induction lines with
  | nil => rfl
  | cons x lines ih =>
      rw [List.forall_mem_cons] at h
      rw [List.flatMap_cons, Text.lineEnds_append, h.1, ih h.2, List.length_cons, Nat.add_comm]

namespace Tree

open CodeLine

/-- The remarks of a statement, line by line. -/
lemma flatMap_remarks_statementLines (p : Page) (sp before behind : Text) (t : Tree) :
    (t.statementLines p sp before behind).flatMap CodeLine.remarks = t.allRemarks := by
  rw [allRemarks_eq_flatMap, ← flatMap_fragments_statementLines t p sp before behind,
    List.flatMap_assoc]
  rfl

/-- The remarks on the lines of a statement are among its own. -/
lemma mem_allRemarks_of_statementLines {t : Tree} {p : Page} {sp before behind : Text}
    {l : CodeLine} (hl : l ∈ t.statementLines p sp before behind) {r : Remark}
    (hr : r ∈ l.remarks) : r ∈ t.allRemarks :=
  flatMap_remarks_statementLines p sp before behind t ▸ List.mem_flatMap_of_mem hl hr

/-- The lines of a statement have no line ends in them if its texts have none. -/
lemma isUncut_statementLines {t : Tree} {p : Page} (hp : '\n' ∉ p.indent)
    (hline : '\n' ∉ t.oneLine) {sp before behind : Text} (hsp : '\n' ∉ sp) (hbefore : '\n' ∉ before)
    (hbehind : '\n' ∉ behind) : ∀ l ∈ t.statementLines p sp before behind, l.IsUncut := by
  have hlines := isUncut_codeLines hp t sp (sp.length + before.length) 0 hline hsp
  exact forall_isUncut_closed (forall_isUncut_opened hlines hbefore []) hbehind

/-- **The number of lines of a tidy statement**: its lines of code, and a line for each remark
above. -/
theorem lineEnds_renderLine {t : Tree} (ht : t.isTidy = true) (hline : '\n' ∉ t.oneLine)
    (hremarks : ∀ r ∈ t.allRemarks, '\n' ∉ r.text) {p : Page} (hp : '\n' ∉ p.indent)
    {sp before behind : Text} (hsp : '\n' ∉ sp) (hbefore : '\n' ∉ before)
    (hbehind : '\n' ∉ behind) :
    Text.lineEnds (t.renderLine p sp before behind) =
      (t.codeLines p sp (sp.length + before.length) 0).length +
        t.allRemarks.countP Remark.isAbove := by
  have huncut := isUncut_statementLines hp hline hsp hbefore hbehind
  have hall := flatMap_remarks_statementLines p sp before behind t
  have hown : ∀ l ∈ t.statementLines p sp before behind, ∀ r ∈ l.remarks, '\n' ∉ r.text :=
    fun l hl r hr => hremarks r (mem_allRemarks_of_statementLines hl hr)
  have habove : ((t.statementLines p sp before behind).flatMap CodeLine.above).length =
      t.allRemarks.countP Remark.isAbove := by
    rw [List.countP_eq_length_filter, ← hall, List.filter_flatMap]
    rfl
  have hlength := length_printedLines (t.statementLines p sp before behind) [] 0
  rw [(isStretch_statementLines t p sp before behind).endsUnbroken.leftBehind_eq_nil, habove,
    List.length_nil, Nat.add_zero, Nat.zero_add] at hlength
  rw [renderLine_eq_printedLines ht, lineEnds_flatMap_text _
    (lineEnds_of_mem_printedLines _ huncut hown [] 0 fun _ hw => absurd hw List.not_mem_nil),
    hlength, statementLines, length_ended, length_opened]

end Tree

end Layout

namespace Statement

/-- **Raising the column limit never adds lines.** On a page with the same indent and a greater
column limit a statement takes no more lines. -/
theorem lineEnds_renderLine_anti {s : Statement} (hline : '\n' ∉ s.layout.oneLine)
    (hremarks : ∀ r ∈ s.layout.allRemarks, '\n' ∉ r.text) {indent sp before behind : Text}
    (hindent : '\n' ∉ indent) (hsp : '\n' ∉ sp) (hbefore : '\n' ∉ before) (hbehind : '\n' ∉ behind)
    {narrow wide : Nat} (h : narrow ≤ wide) :
    Text.lineEnds (s.layout.renderLine ⟨wide, indent⟩ sp before behind) ≤
      Text.lineEnds (s.layout.renderLine ⟨narrow, indent⟩ sp before behind) := by
  have hcount (limit : Nat) := Layout.Tree.lineEnds_renderLine (p := ⟨limit, indent⟩)
    s.isTidy_layout hline hremarks hindent hsp hbefore hbehind
  rw [hcount, hcount]
  exact Nat.add_le_add_right (Layout.Tree.length_codeLines_anti h indent s.layout sp _ 0) _

/-- A test of a flag. -/
def flagTest (flag : Int) (remarks : List Remark) : Condition :=
  .atom (.query ⟨"Flag".toList, [.int flag]⟩) false remarks

/-- A wait for a flag and one of two others, with a remark above the last one. -/
def flagWait : Statement :=
  .ofAction (.wait (.combine .all [flagTest 1 [], .combine .any
    [flagTest 22 [], flagTest 333 [.ofComment .above "// last".toList]] false []] false []) false)

/-- A limit of 34 columns leaves room for the two others on one line, one of 20 columns does not. -/
theorem lineEnds_renderLine_anti_flagWait :
    '\n' ∉ flagWait.layout.oneLine ∧ (∀ r ∈ flagWait.layout.allRemarks, '\n' ∉ r.text) ∧
      flagWait.layout.renderLine ⟨20, "  ".toList⟩ [] [] [] =
        "WaitFor(
  Flag(1)
    && (Flag(22)
      // last
      || Flag(333)));
".toList ∧
      flagWait.layout.renderLine ⟨34, "  ".toList⟩ [] [] [] =
        "WaitFor(
  Flag(1)
    // last
    && (Flag(22) || Flag(333)));
".toList ∧
      Text.lineEnds (flagWait.layout.renderLine ⟨34, "  ".toList⟩ [] [] []) ≤
        Text.lineEnds (flagWait.layout.renderLine ⟨20, "  ".toList⟩ [] [] []) := by
  have hline : '\n' ∉ flagWait.layout.oneLine := by decide
  have hremarks : ∀ r ∈ flagWait.layout.allRemarks, '\n' ∉ r.text := by decide
  refine ⟨hline, hremarks, by decide, by decide, ?_⟩
  exact lineEnds_renderLine_anti hline hremarks (by decide) (by decide) (by decide) (by decide)
    (by decide)

end Statement

end EventScript
