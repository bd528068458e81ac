import EventScript.Proofs.Text.Lines
import EventScript.Text.Blank

/-!
Columns: how far a text reaches to the right when it is written from a column of a line on.

* `Text.columnAfter`: the column behind the text, and `Text.reach`: the greatest one it comes to;
* `columnAfter_append`, `reach_append`: texts one behind the other;
* `length_le_reach`: no line of a text is longer than the text reaches;
* `Text.KeepsTo`: texts that stay within a limit, and leave room for what is written behind them.
-/

namespace EventScript

namespace Text

/-- The column behind a text that is written from a column on. -/
def columnAfter (column : Nat) : Text → Nat
  | [] => column
  | c :: t => columnAfter (if c = '\n' then 0 else column + 1) t

/-- The greatest column that a text comes to when it is written from a column on. -/
def reach (column : Nat) : Text → Nat
  | [] => column
  | c :: t => max column (reach (if c = '\n' then 0 else column + 1) t)

lemma columnAfter_append (column : Nat) (t u : Text) :
    columnAfter column (t ++ u) = columnAfter (columnAfter column t) u := by
  induction t generalizing column with
  | nil => rfl
  | cons c t ih => exact ih _

/-- A text reaches the column it is written from. -/
lemma le_reach (column : Nat) (t : Text) : column ≤ reach column t := by
  cases t with
  | nil => exact Nat.le_refl column
  | cons c t => exact Nat.le_max_left _ _

lemma reach_append (column : Nat) (t u : Text) :
    reach column (t ++ u) = max (reach column t) (reach (columnAfter column t) u) := by
  induction t generalizing column with
  | nil => exact (Nat.max_eq_right (le_reach column u)).symm
  | cons c t ih => rw [List.cons_append, reach, reach, columnAfter, ih, Nat.max_assoc]

/-- On one line the column moves by the length of the text. -/
lemma columnAfter_of_notMem {t : Text} (h : '\n' ∉ t) (column : Nat) :
    columnAfter column t = column + t.length := by
  induction t generalizing column with
  | nil => rfl
  | cons c t ih =>
      rw [List.mem_cons, not_or] at h
      rw [columnAfter, if_neg (Ne.symm h.1), ih h.2, List.length_cons]
      omega

/-- On one line a text reaches as far as its end. -/
lemma reach_of_notMem {t : Text} (h : '\n' ∉ t) (column : Nat) :
    reach column t = column + t.length := by
  induction t generalizing column with
  | nil => rfl
  | cons c t ih =>
      rw [List.mem_cons, not_or] at h
      rw [reach, if_neg (Ne.symm h.1), ih h.2, List.length_cons]
      omega

/-- How far a text reaches behind another one on the same line. -/
lemma reach_behind {opening : Text} (hopening : '\n' ∉ opening) (column : Nat) (t : Text) :
    reach column (opening ++ t) = reach (column + opening.length) t := by
  rw [reach_append, columnAfter_of_notMem hopening, reach_of_notMem hopening,
    Nat.max_eq_right (le_reach _ t)]

/-- How far a text reaches on a line of its own, behind an indent and a mark. -/
lemma reach_onLine {sp mark : Text} (hsp : '\n' ∉ sp) (hmark : '\n' ∉ mark) (t : Text) :
    reach 0 (sp ++ (mark ++ t)) = reach (sp.length + mark.length) t := by
  rw [reach_behind hsp, reach_behind hmark, Nat.zero_add]

/-- The end of a line goes back to the margin. -/
lemma columnAfter_lineEnd (column : Nat) (t : Text) : columnAfter column (t ++ ['\n']) = 0 :=
  columnAfter_append column t ['\n']

/-- The end of a line reaches no further than the line. -/
lemma reach_lineEnd (column : Nat) (t : Text) : reach column (t ++ ['\n']) = reach column t := by
  have hle : columnAfter column t ≤ reach column t := by
    conv_rhs => rw [← List.append_nil t, reach_append]
    exact Nat.le_max_right _ _
  have hend : reach (columnAfter column t) ['\n'] = columnAfter column t := Nat.max_zero _
  rw [reach_append, hend, Nat.max_eq_left hle]

/-- A trimmed text reaches no further. -/
lemma reach_trimEnd_le (column : Nat) (t : Text) : reach column (trimEnd t) ≤ reach column t := by
  obtain ⟨bs, -, h⟩ := exists_trimEnd_append t
  conv_rhs => rw [← h, reach_append]
  exact Nat.le_max_left _ _

/-- The first line of a text goes on from the column, and the others begin at the margin. -/
lemma exists_lines_le_reach (column : Nat) (t : Text) :
    ∃ first rest, t.lines = first :: rest ∧ column + first.length ≤ reach column t ∧
      ∀ line ∈ rest, line.length ≤ reach column t := by
  induction t generalizing column with
  | nil => exact ⟨[], [], rfl, Nat.le_refl _, by simp⟩
  | cons c t ih =>
      rw [lines, List.splitOn_cons_eq_if_modifyHead, reach]
      by_cases hc : c = '\n'
      · obtain ⟨first, rest, hlines, hfirst, hrest⟩ := ih 0
        rw [if_pos (by rw [hc]; rfl), if_pos hc]
        refine ⟨[], lines t, rfl, Nat.le_max_left _ _, ?_⟩
        rw [hlines, List.forall_mem_cons]
        have hle : reach 0 t ≤ max column (reach 0 t) := Nat.le_max_right _ _
        rw [Nat.zero_add] at hfirst
        exact ⟨Nat.le_trans hfirst hle, fun line hline => Nat.le_trans (hrest line hline) hle⟩
      · obtain ⟨first, rest, hlines, hfirst, hrest⟩ := ih (column + 1)
        rw [lines] at hlines
        rw [if_neg (by simpa using hc), if_neg hc, hlines]
        have hle : reach (column + 1) t ≤ max column (reach (column + 1) t) := Nat.le_max_right _ _
        refine ⟨c :: first, rest, rfl, Nat.le_trans ?_ hle,
          fun line hline => Nat.le_trans (hrest line hline) hle⟩
        rw [List.length_cons]
        omega

/-- **No line of a text is longer than the text reaches.** -/
lemma length_le_reach {t line : Text} (h : line ∈ t.lines) : line.length ≤ reach 0 t := by
  obtain ⟨first, rest, hlines, hfirst, hrest⟩ := exists_lines_le_reach 0 t
  rw [hlines, List.mem_cons] at h
  rcases h with rfl | h
  · rwa [Nat.zero_add] at hfirst
  · exact hrest line h

/-! ### Keeping to a limit -/

/-- A text that is written from a column on and stays within a limit, with room for `trailing` more
characters behind it. -/
structure KeepsTo (limit column trailing : Nat) (t : Text) : Prop where
  reach : reach column t ≤ limit
  room : columnAfter column t + trailing ≤ limit

variable {limit column trailing : Nat} {t u : Text}

lemma keepsTo_of_notMem (h : '\n' ∉ t) (hle : column + t.length + trailing ≤ limit) :
    KeepsTo limit column trailing t where
  reach := by
    rw [reach_of_notMem h]
    omega
  room := by rwa [columnAfter_of_notMem h]

/-- A text with others in front and behind on the same lines. -/
lemma KeepsTo.around {opening closing : Text} (hopening : '\n' ∉ opening)
    (hclosing : '\n' ∉ closing)
    (h : KeepsTo limit (column + opening.length) (trailing + closing.length) t) :
    KeepsTo limit column trailing (opening ++ t ++ closing) where
  reach := by
    have hroom := h.room
    rw [reach_append, columnAfter_append, columnAfter_of_notMem hopening,
      reach_of_notMem hclosing]
    rw [reach_behind hopening]
    exact Nat.max_le.mpr ⟨h.reach, by omega⟩
  room := by
    have hroom := h.room
    rw [columnAfter_append, columnAfter_append, columnAfter_of_notMem hopening,
      columnAfter_of_notMem hclosing]
    omega

/-- A text on a line of its own, between a mark and another text. -/
lemma KeepsTo.onLine {sp mark closing : Text} (hsp : '\n' ∉ sp) (hmark : '\n' ∉ mark)
    (hclosing : '\n' ∉ closing)
    (h : KeepsTo limit (sp.length + mark.length) (closing.length + trailing) t) :
    KeepsTo limit 0 trailing (sp ++ (mark ++ t ++ closing)) := by
  have haround : KeepsTo limit 0 trailing (sp ++ mark ++ t ++ closing) := by
    refine KeepsTo.around (by simp [hsp, hmark]) hclosing ?_
    rwa [List.length_append, Nat.zero_add, Nat.add_comm trailing]
  simpa only [List.append_assoc] using haround

/-- A text below a line that stays within the limit. -/
lemma KeepsTo.below {head : Text} (hhead : Text.reach column head ≤ limit)
    (h : KeepsTo limit 0 trailing t) : KeepsTo limit column trailing (head ++ ['\n'] ++ t) where
  reach := by
    rw [reach_append, columnAfter_lineEnd, reach_lineEnd]
    exact Nat.max_le.mpr ⟨hhead, h.reach⟩
  room := by
    rw [columnAfter_append, columnAfter_lineEnd]
    exact h.room

end Text

end EventScript
