import EventScript.Proofs.Layout.Solid
import EventScript.Proofs.Text.Lines
import Mathlib.Data.List.TakeWhile

/-!
Texts whose lines do not end in blanks.

* `Text.IsTrimmed`: texts that do not end in a blank;
* `Text.IsClean`: such texts on one line with something in them. What is written without blanks is
  clean (`isClean_of_forall`);
* `Text.IsNeat`: texts of whole lines that are all trimmed.
-/

namespace EventScript

namespace Text

/-! ### Trimmed texts -/

/-- A text that does not end in a blank. It may be empty. -/
def IsTrimmed (t : Text) : Prop := ∀ c ∈ t.getLast?, isBlank c = false

lemma isTrimmed_nil : IsTrimmed [] := fun c hc => by cases hc

/-- A text ends in ink if it is trimmed and not empty. -/
lemma endsInInk_iff {t : Text} : endsInInk t = true ↔ t ≠ [] ∧ IsTrimmed t := by
  rw [endsInInk, IsTrimmed]
  cases hlast : t.getLast? with
  | none => simp [List.getLast?_eq_none_iff.mp hlast]
  | some c =>
      have hne : t ≠ [] := by
        rintro rfl
        cases hlast
      simp [hne]

lemma isTrimmed_of_endsInInk {t : Text} (h : endsInInk t = true) : IsTrimmed t :=
  (endsInInk_iff.mp h).2

/-- A text that ends in ink does so whatever is put in front of it. -/
lemma endsInInk_append {u : Text} (h : endsInInk u = true) (t : Text) :
    endsInInk (t ++ u) = true := by
  obtain ⟨c, hc, hink⟩ := (Option.any_eq_true _ _).mp h
  rw [endsInInk, List.getLast?_append, hc]
  exact hink

/-- A text that ends in ink does so with a trimmed text behind it. -/
lemma endsInInk_append_of_isTrimmed {t u : Text} (ht : endsInInk t = true) (hu : IsTrimmed u) :
    endsInInk (t ++ u) = true := by
  by_cases hne : u = []
  · rwa [hne, List.append_nil]
  · exact endsInInk_append (endsInInk_iff.mpr ⟨hne, hu⟩) t

lemma IsTrimmed.append {t u : Text} (ht : IsTrimmed t) (hu : IsTrimmed u) :
    IsTrimmed (t ++ u) := by
  by_cases hne : t = []
  · rwa [hne, List.nil_append]
  · exact isTrimmed_of_endsInInk (endsInInk_append_of_isTrimmed (endsInInk_iff.mpr ⟨hne, ht⟩) hu)

lemma isTrimmed_flatten {ts : List Text} (h : ∀ t ∈ ts, IsTrimmed t) : IsTrimmed ts.flatten := by
  induction ts with
  | nil => exact isTrimmed_nil
  | cons t ts ih =>
      rw [List.forall_mem_cons] at h
      exact h.1.append (ih h.2)

/-- What is left of more than blanks when it is trimmed ends in ink. -/
lemma endsInInk_trimEnd {t : Text} (h : Layout.Tree.hasInk t = true) :
    endsInInk (trimEnd t) = true := by
  have hne : t.reverse.dropWhile isBlank ≠ [] := by
    intro hnil
    obtain ⟨c, hc, hink⟩ := List.any_eq_true.mp h
    have hblank := List.dropWhile_eq_nil_iff.mp hnil c (List.mem_reverse.mpr hc)
    rw [hblank] at hink
    cases hink
  have hhead := List.head_dropWhile_not isBlank hne
  rw [endsInInk, trimEnd, List.getLast?_reverse, List.head?_eq_some_head hne, Option.any_some,
    hhead]
  rfl

/-! ### Clean texts -/

/-- A text of one line that is not empty and does not end in a blank. -/
structure IsClean (t : Text) : Prop where
  ne_nil : t ≠ []
  oneLine : '\n' ∉ t
  isTrimmed : IsTrimmed t

lemma IsClean.endsInInk {t : Text} (h : IsClean t) : Text.endsInInk t = true :=
  endsInInk_iff.mpr ⟨h.ne_nil, h.isTrimmed⟩

lemma isClean_iff {t : Text} :
    IsClean t ↔ (Text.endsInInk t && !t.contains '\n') = true := by
  rw [Bool.and_eq_true, Bool.not_eq_true', Bool.eq_false_iff, ne_eq, List.contains_iff_mem,
    endsInInk_iff]
  exact ⟨fun h => ⟨⟨h.ne_nil, h.isTrimmed⟩, h.oneLine⟩, fun h => ⟨h.1.1, h.2, h.1.2⟩⟩

instance (t : Text) : Decidable (IsClean t) := decidable_of_iff _ isClean_iff.symm

/-- Text without blanks is clean, unless it is empty. -/
lemma isClean_of_forall {t : Text} (hne : t ≠ []) (h : ∀ c ∈ t, isBlank c = false) :
    IsClean t := by
  refine ⟨hne, fun hmem => ?_, fun c hc => h c (List.mem_of_getLast? hc)⟩
  exact absurd (h '\n' hmem) (by decide)

/-- A text of one line with a clean text behind is clean. -/
lemma isClean_append {t u : Text} (ht : '\n' ∉ t) (hu : IsClean u) : IsClean (t ++ u) := by
  refine ⟨List.append_ne_nil_of_right_ne_nil t hu.ne_nil, List.not_mem_append ht hu.oneLine, ?_⟩
  exact isTrimmed_of_endsInInk (endsInInk_append hu.endsInInk t)

/-! ### Neat texts -/

/-- A text of whole lines, none of which ends in a blank. -/
structure IsNeat (t : Text) : Prop where
  whole : IsWhole t
  lines : ∀ line ∈ t.lines, IsTrimmed line

lemma isNeat_nil : IsNeat [] := ⟨isWhole_nil, fun _ hline => by
  rw [List.mem_singleton.mp hline]
  exact isTrimmed_nil⟩

/-- A trimmed line with its end. -/
lemma isNeat_line {t : Text} (hline : '\n' ∉ t) (ht : IsTrimmed t) : IsNeat (t ++ ['\n']) := by
  refine ⟨isWhole_concat t, fun line hmem => ?_⟩
  rw [lines_concat, Text.lines, List.splitOn_eq_singleton hline] at hmem
  rcases List.mem_append.mp hmem with hmem | hmem
  · rwa [List.mem_singleton.mp hmem]
  · rw [List.mem_singleton.mp hmem]
    exact isTrimmed_nil

lemma IsNeat.append {t u : Text} (ht : IsNeat t) (hu : IsNeat u) : IsNeat (t ++ u) := by
  refine ⟨ht.whole.append hu.whole, fun line hline => ?_⟩
  rw [lines_append ht.whole, List.mem_append] at hline
  rcases hline with hline | hline
  · exact ht.lines line (List.dropLast_subset _ hline)
  · exact hu.lines line hline

lemma isNeat_flatMap {α : Type*} {f : α → Text} {xs : List α} (h : ∀ x ∈ xs, IsNeat (f x)) :
    IsNeat (xs.flatMap f) := by
  induction xs with
  | nil => exact isNeat_nil
  | cons x xs ih =>
      rw [List.forall_mem_cons] at h
      exact h.1.append (ih h.2)

end Text

end EventScript
