import EventScript.Text.Blank
import Mathlib.Data.List.Basic
import Mathlib.Tactic.Common

/-!
Texts without their blanks.

Breaking a line and indenting it change nothing but blanks, so what a printed text says at any width
is what is left when its blanks are taken out.

* `Text.squeeze`: a text without its blanks;
* `squeeze_trimStart`, `squeeze_trimEnd`, `squeeze_indent`: what squeezing does not see;
* `squeeze_intercalate`: squeezing the pieces of a joined text.
-/

namespace EventScript

namespace Text

/-- The text without its blanks. -/
def squeeze (t : Text) : Text := t.filter fun c => !isBlank c

@[simp] lemma squeeze_nil : squeeze [] = [] := rfl

@[simp] lemma squeeze_append (t u : Text) : squeeze (t ++ u) = squeeze t ++ squeeze u :=
  List.filter_append t u

/-- A character in front of a text stays, unless it is a blank. -/
lemma squeeze_cons (c : Char) (t : Text) :
    squeeze (c :: t) = if isBlank c then squeeze t else c :: squeeze t := by
  rw [squeeze, List.filter_cons]
  cases isBlank c <;> rfl

@[simp] lemma squeeze_lineEnd : squeeze ['\n'] = [] := by decide

/-- Nothing is left of blanks. -/
lemma squeeze_eq_nil {t : Text} (h : ∀ c ∈ t, isBlank c = true) : squeeze t = [] :=
  List.filter_eq_nil_iff.mpr fun c hc => by simp [h c hc]

/-- All of a text without blanks is left. -/
lemma squeeze_eq_self {t : Text} (h : ∀ c ∈ t, isBlank c = false) : squeeze t = t :=
  List.filter_eq_self.mpr fun c hc => by simp [h c hc]

lemma squeeze_flatten (ts : List Text) : squeeze ts.flatten = (ts.map squeeze).flatten := by
  rw [squeeze, List.filter_flatten]
  rfl

lemma squeeze_flatMap {α : Type} (f : α → Text) (l : List α) :
    squeeze (l.flatMap f) = l.flatMap fun a => squeeze (f a) := by
  rw [List.flatMap_def, squeeze_flatten, List.map_map, List.flatMap_def]
  rfl

/-! ### Trimming and indents -/

@[simp] lemma squeeze_trimStart (t : Text) : squeeze (trimStart t) = squeeze t := by
  obtain ⟨bs, hbs, h⟩ := exists_append_trimStart t
  have hnil : squeeze bs = [] := squeeze_eq_nil (List.all_eq_true.mp hbs)
  conv_rhs => rw [← h, squeeze_append, hnil, List.nil_append]

@[simp] lemma squeeze_trimEnd (t : Text) : squeeze (trimEnd t) = squeeze t := by
  obtain ⟨bs, hbs, h⟩ := exists_trimEnd_append t
  have hnil : squeeze bs = [] := squeeze_eq_nil (List.all_eq_true.mp hbs)
  conv_rhs => rw [← h, squeeze_append, hnil, List.append_nil]

@[simp] lemma squeeze_indent (width : Nat) : squeeze (indent width) = [] := by
  refine squeeze_eq_nil fun c hc => ?_
  rw [List.eq_of_mem_replicate hc]
  decide

/-- Of a repeated text with nothing left nothing is left. -/
lemma squeeze_times {t : Text} (h : squeeze t = []) (count : Nat) :
    squeeze (times count t) = [] := by
  rw [times, squeeze_flatten, List.map_replicate, h, List.flatten_replicate_nil]

/-! ### Joined texts -/

/-- A joined text is its first piece, and every other one with a separator in front. -/
lemma intercalate_cons (sep t : Text) (ts : List Text) :
    sep.intercalate (t :: ts) = t ++ ts.flatMap fun u => sep ++ u := by
  induction ts generalizing t with
  | nil => simp
  | cons u ts ih =>
      rw [List.intercalate_cons_cons, ih u, List.flatMap_cons]
      simp only [List.append_assoc]

lemma notMem_intercalate {d : Char} {sep : Text} {ts : List Text} (hsep : d ∉ sep)
    (h : ∀ t ∈ ts, d ∉ t) : d ∉ sep.intercalate ts := by
  cases ts with
  | nil => exact List.not_mem_nil
  | cons t ts =>
      rw [intercalate_cons, List.mem_append, List.mem_flatMap]
      rintro (hmem | ⟨u, hu, hmem⟩)
      · exact h t List.mem_cons_self hmem
      · rcases List.mem_append.mp hmem with hmem | hmem
        · exact hsep hmem
        · exact h u (List.mem_cons_of_mem t hu) hmem

lemma notMem_commaList {d : Char} {ts : List Text} (hcomma : d ≠ ',') (hblank : d ≠ ' ')
    (h : ∀ t ∈ ts, d ∉ t) : d ∉ commaList ts :=
  notMem_intercalate (by simp [hcomma, hblank]) h

lemma squeeze_intercalate (sep : Text) (ts : List Text) :
    squeeze (sep.intercalate ts) = (squeeze sep).intercalate (ts.map squeeze) := by
  cases ts with
  | nil => rfl
  | cons t ts =>
      rw [List.map_cons, intercalate_cons, intercalate_cons, squeeze_append, squeeze_flatMap,
        List.flatMap_map]
      simp only [squeeze_append]

end Text

end EventScript
