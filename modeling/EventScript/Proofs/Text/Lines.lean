import EventScript.Text
import Mathlib.Data.List.Basic
import Mathlib.Tactic.Common

/-!
The lines of a text.

* `Text.eq_toList`: a text written as a literal, which may go over several lines;
* `Text.lines`: a text cut at its line ends, and `Text.linesBetween`: some of its lines;
* `Text.IsWhole`: texts that hold whole lines only. What stands behind such a text begins a line of
  its own (`lines_append`), so its lines are found by counting line ends (`linesBetween_append`).
-/

namespace EventScript

namespace Text

/-- A text that makes a string up is that of the string. A literal is made up of its code points by
definition, while decoding it takes time quadratic in its length. -/
lemma eq_toList {t : Text} {s : String} (h : String.ofList t = s) : t = s.toList := by
  rw [← h, String.toList_ofList]

/-- The lines of a text without their ends. What stands behind the last line end is a line too, even
if there is nothing. -/
def lines (t : Text) : List Text := t.splitOn '\n'

/-- The lines of a text from one number to another, each with its end. Lines count from one. -/
def linesBetween (first last : Nat) (t : Text) : Text :=
  ((t.lines.take last).drop (first - 1)).flatMap fun line => line ++ ['\n']

example : linesBetween 2 3 "one\ntwo\nthree\nfour\n".toList = "two\nthree\n".toList := by decide

/-! ### Line ends -/

@[simp] lemma lineEnds_append (t u : Text) : lineEnds (t ++ u) = lineEnds t + lineEnds u :=
  List.count_append

lemma lineEnds_pos {t : Text} (h : t.getLast? = some '\n') : 0 < lineEnds t :=
  List.count_pos_iff.mpr (List.mem_of_getLast? h)

/-- A text has one line more than it has line ends. -/
lemma length_lines (t : Text) : t.lines.length = lineEnds t + 1 := by
  induction t with
  | nil => rfl
  | cons c t ih =>
      rw [lines] at ih
      rw [lines, lineEnds, List.splitOn_cons_eq_if_modifyHead, List.count_cons]
      split
      · simp [ih, lineEnds]
      · simp [ih, lineEnds]

/-- Behind a line end at the end of a text there is a line with nothing in it. -/
lemma lines_concat (t : Text) : lines (t ++ ['\n']) = t.lines ++ [[]] :=
  List.splitOn_append_cons_self t []

/-- The lines with their ends are the text, and the end of its last line. -/
lemma flatMap_lines (t : Text) : (t.lines.flatMap fun line => line ++ ['\n']) = t ++ ['\n'] := by
  induction t with
  | nil => rfl
  | cons c t ih =>
      obtain ⟨line, rest, hsplit⟩ := List.exists_cons_of_ne_nil (List.splitOn_ne_nil '\n' t)
      rw [lines, hsplit, List.flatMap_cons] at ih
      rw [lines, List.splitOn_cons_eq_if_modifyHead, hsplit]
      split
      · next hc =>
          rw [List.flatMap_cons, List.flatMap_cons, ih, eq_of_beq hc]
          rfl
      · rw [List.modifyHead_cons, List.flatMap_cons, List.cons_append, List.cons_append, ih]
        rfl

/-! ### Whole lines -/

/-- A text that holds whole lines only, or nothing. -/
def IsWhole (t : Text) : Prop := t = [] ∨ t.getLast? = some '\n'

lemma isWhole_nil : IsWhole [] := Or.inl rfl

lemma isWhole_concat (t : Text) : IsWhole (t ++ ['\n']) := Or.inr List.getLast?_concat

lemma IsWhole.append {t u : Text} (ht : IsWhole t) (hu : IsWhole u) : IsWhole (t ++ u) := by
  rcases hu with rfl | hu
  · rwa [List.append_nil]
  · right
    rw [List.getLast?_append, hu]
    rfl

lemma isWhole_flatMap {α : Type*} {f : α → Text} {xs : List α} (h : ∀ x ∈ xs, IsWhole (f x)) :
    IsWhole (xs.flatMap f) := by
  induction xs with
  | nil => exact isWhole_nil
  | cons x xs ih =>
      rw [List.forall_mem_cons] at h
      exact h.1.append (ih h.2)

/-- Whole lines end where the next line begins. -/
lemma lines_append {t : Text} (h : IsWhole t) (u : Text) :
    (t ++ u).lines = t.lines.dropLast ++ u.lines := by
  rcases h with rfl | h
  · rfl
  · obtain ⟨w, rfl⟩ := List.getLast?_eq_some_iff.mp h
    rw [lines_concat, List.dropLast_concat, List.append_assoc]
    exact List.splitOn_append_cons_self w u

lemma length_dropLast_lines (t : Text) : t.lines.dropLast.length = lineEnds t := by
  rw [List.length_dropLast, length_lines, Nat.add_sub_cancel]

/-- Whole lines are their lines with their ends. -/
lemma flatMap_dropLast_lines {t : Text} (h : IsWhole t) :
    (t.lines.dropLast.flatMap fun line => line ++ ['\n']) = t := by
  rcases h with rfl | h
  · rfl
  · obtain ⟨w, rfl⟩ := List.getLast?_eq_some_iff.mp h
    rw [lines_concat, List.dropLast_concat, flatMap_lines]

/-- **Whole lines are found among others** by the line ends in front of them and their own. -/
lemma linesBetween_append {t u : Text} (ht : IsWhole t) (hu : IsWhole u) (v : Text) :
    linesBetween (lineEnds t + 1) (lineEnds t + lineEnds u) (t ++ (u ++ v)) = u := by
  have hfirst := length_dropLast_lines t
  have hsecond := length_dropLast_lines u
  rw [linesBetween, lines_append ht, lines_append hu, ← List.append_assoc, Nat.add_sub_cancel,
    List.take_left' (by rw [List.length_append, hfirst, hsecond]), List.drop_left' hfirst,
    flatMap_dropLast_lines hu]

end Text

end EventScript
