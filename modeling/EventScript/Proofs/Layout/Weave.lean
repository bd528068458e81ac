import EventScript.Layout.Pending
import EventScript.Text.Blank
import Mathlib.Data.List.Basic
import Mathlib.Tactic.Common

/-!
Remarks woven into a text.

Two printed texts are read side by side, one without remarks and one with them. They agree in every
character of the code, and a remark may only be put in where it cannot change what the code says:
one above as a whole line at the start of a line, and a trailing one in front of the end of a line.

* `Layout.Weave`: the two texts, the remarks put in, and the place on the line at both ends;
* `Weave.append`: stretches of text one behind the other;
* `Layout.WovenLine`, `Weave.exists_lines`: such texts line by line;
* `Layout.Anchored`, `Anchored.trimEnd`: the blanks at the end of a stretch may be cut off where no
  remark is among them.
-/

namespace EventScript.Layout

/-- A place on a line: its start, past its start, or behind a remark at its end. -/
inductive Place where
  | start
  | inside
  | closed
deriving DecidableEq, Repr

lemma Place.start_ne_closed : Place.start ≠ .closed := Place.noConfusion

section

variable (indents : Text → Prop)

/-- A text without remarks, the same text with remarks put in, and these remarks, between two
places. Behind a remark at the end of a line, nothing but further ones and the end of the line may
stand. -/
inductive Weave : Place → Text → Text → List Remark → Place → Prop
  | nil (a : Place) : Weave a [] [] [] a
  | code {a b : Place} {c : Char} {plain text : Text} {rs : List Remark} (ha : a ≠ .closed)
      (hc : c ≠ '\n') (h : Weave .inside plain text rs b) : Weave a (c :: plain) (c :: text) rs b
  | lineEnd {a b : Place} {plain text : Text} {rs : List Remark}
      (h : Weave .start plain text rs b) : Weave a ('\n' :: plain) ('\n' :: text) rs b
  | above {b : Place} {sp plain text : Text} {r : Remark} {rs : List Remark} (hsp : indents sp)
      (hr : r.isAbove = true) (h : Weave .start plain text rs b) :
      Weave .start plain (Remark.lineAt sp r.text ++ text) (r :: rs) b
  | trailing {a b : Place} {plain text : Text} {r : Remark} {rs : List Remark}
      (hr : r.isTrailing = true) (h : Weave .closed plain text rs b) :
      Weave a plain (r.text ++ text) (r :: rs) b

/-- A stretch that does not end behind a remark. -/
def Runs (a : Place) (plain text : Text) (rs : List Remark) : Prop :=
  ∃ b, b ≠ .closed ∧ Weave indents a plain text rs b

end

variable {indents : Text → Prop}

/-! ### Stretches of text -/

namespace Weave

variable {a b c : Place} {plain plain' text text' : Text} {rs rs' : List Remark}

/-- **Stretches one behind the other.** -/
theorem append (h : Weave indents a plain text rs b) (h' : Weave indents b plain' text' rs' c) :
    Weave indents a (plain ++ plain') (text ++ text') (rs ++ rs') c := by
  induction h with
  | nil a => exact h'
  | code ha hc _ ih => exact code ha hc (ih h')
  | lineEnd _ ih => exact lineEnd (ih h')
  | above hsp hr _ ih =>
      rw [List.append_assoc]
      exact above hsp hr (ih h')
  | trailing hr _ ih =>
      rw [List.append_assoc]
      exact trailing hr (ih h')

/-- The end of a line. -/
lemma newline (a : Place) : Weave indents a ['\n'] ['\n'] [] .start := lineEnd (nil .start)

/-- Lines of remarks are put in at the start of a line. -/
lemma linesAbove {sp : Text} (hsp : indents sp) (rs : List Remark) :
    Weave indents .start [] (((Remark.linesAbove rs).map (Remark.lineAt sp)).flatten)
      (rs.filter Remark.isAbove) .start := by
  induction rs with
  | nil => exact nil .start
  | cons r rs ih =>
      by_cases hr : r.isAbove = true
      · rw [Remark.linesAbove, List.filter_cons_of_pos hr, List.map_cons, List.map_cons,
          List.flatten_cons]
        exact above hsp hr ih
      · rwa [Remark.linesAbove, List.filter_cons_of_neg hr]

/-- Remarks are put in at the end of a line. -/
lemma suffix_lineEnd (a : Place) (rs : List Remark) :
    Weave indents a ['\n'] (Remark.suffix rs ++ ['\n']) (rs.filter Remark.isTrailing) .start := by
  induction rs generalizing a with
  | nil => exact newline a
  | cons r rs ih =>
      by_cases hr : r.isTrailing = true
      · rw [Remark.suffix, List.filter_cons_of_pos hr, List.map_cons, List.flatten_cons,
          List.append_assoc]
        exact trailing hr (ih .closed)
      · rw [Remark.suffix, List.filter_cons_of_neg hr]
        exact ih a

end Weave

namespace Runs

variable {a : Place} {plain plain' text text' : Text} {rs rs' : List Remark}

variable (indents) in
/-- A stretch of code. -/
lemma code (ha : a ≠ .closed) (t : Text) : Runs indents a t t [] := by
  induction t generalizing a with
  | nil => exact ⟨a, ha, .nil a⟩
  | cons c t ih =>
      by_cases hc : c = '\n'
      · subst hc
        obtain ⟨b, hb, h⟩ := ih (a := .start) (by decide)
        exact ⟨b, hb, .lineEnd h⟩
      · obtain ⟨b, hb, h⟩ := ih (a := .inside) (by decide)
        exact ⟨b, hb, .code ha hc h⟩

lemma append (h : Runs indents a plain text rs)
    (h' : ∀ b, b ≠ .closed → Runs indents b plain' text' rs') :
    Runs indents a (plain ++ plain') (text ++ text') (rs ++ rs') := by
  obtain ⟨b, hb, hw⟩ := h
  obtain ⟨c, hc, hw'⟩ := h' b hb
  exact ⟨c, hc, hw.append hw'⟩

/-- A stretch behind another one that is fixed. -/
lemma behind {b : Place} (h : Runs indents b plain' text' rs')
    (hw : Weave indents a plain text rs b) :
    Runs indents a (plain ++ plain') (text ++ text') (rs ++ rs') := by
  obtain ⟨c, hc, hw'⟩ := h
  exact ⟨c, hc, hw.append hw'⟩

lemma append_code (h : Runs indents a plain text rs) (t : Text) :
    Runs indents a (plain ++ t) (text ++ t) rs := by
  have happend := h.append fun b hb => code indents hb t
  rwa [List.append_nil] at happend

/-- The end of a line, with the remarks in front of it. -/
lemma lineEnd (h : Runs indents a plain text rs) (bs : List Remark) :
    Weave indents a (plain ++ ['\n']) (text ++ Remark.suffix bs ++ ['\n'])
      (rs ++ bs.filter Remark.isTrailing) .start := by
  obtain ⟨b, -, hw⟩ := h
  rw [List.append_assoc]
  exact hw.append (Weave.suffix_lineEnd b bs)

end Runs

/-! ### Trimming -/

/-- A stretch with a character behind its last remark that is not a blank. -/
def Anchored (indents : Text → Prop) (a : Place) (plain text : Text) (rs : List Remark) : Prop :=
  ∃ plain' text' last, plain = plain' ++ last ∧ text = text' ++ last ∧
    last.any (fun c => !Text.isBlank c) = true ∧ Runs indents a plain' text' rs

/-- Trimming stops at a character that is not a blank. -/
lemma trimEnd_append {t : Text} (h : t.any (fun c => !Text.isBlank c) = true) (front : Text) :
    Text.trimEnd (front ++ t) = front ++ Text.trimEnd t := by
  have hdrop : ∀ u : Text, u.any (fun c => !Text.isBlank c) = true →
      (u ++ front.reverse).dropWhile Text.isBlank =
        u.dropWhile Text.isBlank ++ front.reverse := by
    intro u hu
    induction u with
    | nil => cases hu
    | cons c u ih =>
        by_cases hc : Text.isBlank c = true
        · have hu' : u.any (fun c => !Text.isBlank c) = true := by simpa [hc] using hu
          rw [List.cons_append, List.dropWhile_cons_of_pos hc, List.dropWhile_cons_of_pos hc,
            ih hu']
        · rw [List.cons_append, List.dropWhile_cons_of_neg hc, List.dropWhile_cons_of_neg hc,
            List.cons_append]
  rw [Text.trimEnd, Text.trimEnd, List.reverse_append, hdrop _ (by simpa using h),
    List.reverse_append, List.reverse_reverse]

namespace Anchored

variable {a : Place} {plain text : Text} {rs : List Remark}

/-- The blanks at the end of an anchored stretch hold no remark. -/
lemma trimEnd (h : Anchored indents a plain text rs) :
    Runs indents a (Text.trimEnd plain) (Text.trimEnd text) rs := by
  obtain ⟨plain', text', last, rfl, rfl, hlast, hruns⟩ := h
  rw [trimEnd_append hlast, trimEnd_append hlast]
  exact hruns.append_code _

lemma behind {b : Place} {plain' text' : Text} {rs' : List Remark}
    (h : Anchored indents b plain' text' rs') (hw : Weave indents a plain text rs b) :
    Anchored indents a (plain ++ plain') (text ++ text') (rs ++ rs') := by
  obtain ⟨front, front', last, rfl, rfl, hlast, hruns⟩ := h
  exact ⟨plain ++ front, text ++ front', last, by simp, by simp, hlast, hruns.behind hw⟩

lemma append_code (h : Anchored indents a plain text rs) (t : Text) :
    Anchored indents a (plain ++ t) (text ++ t) rs := by
  obtain ⟨plain', text', last, rfl, rfl, hlast, hruns⟩ := h
  refine ⟨plain', text', last ++ t, by simp, by simp, ?_, hruns⟩
  rw [List.any_append, hlast, Bool.true_or]

lemma of_runs (h : Runs indents a plain text rs) {t : Text}
    (ht : t.any (fun c => !Text.isBlank c) = true) :
    Anchored indents a (plain ++ t) (text ++ t) rs :=
  ⟨plain, text, t, rfl, rfl, ht, h⟩

end Anchored

/-! ### Line by line -/

/-- A line of a text with remarks: a line of the code with the remarks at its end, or a remark on a
line of its own. -/
inductive WovenLine where
  | code (text : Text) (remarks : List Remark)
  | remark (sp : Text) (r : Remark)

namespace WovenLine

/-- What the line is without remarks. -/
def plain : WovenLine → Text
  | code t _ => t ++ ['\n']
  | remark _ _ => []

/-- What the line is with them. -/
def text : WovenLine → Text
  | code t rs => t ++ (rs.map Remark.text).flatten ++ ['\n']
  | remark sp r => Remark.lineAt sp r.text

/-- The remarks on the line. -/
def remarks : WovenLine → List Remark
  | code _ rs => rs
  | remark _ r => [r]

/-- The code is on one line with trailing remarks behind it, and a remark alone stands at an indent
and is one that stands above its owner. -/
def IsWoven (indents : Text → Prop) : WovenLine → Prop
  | code t rs => '\n' ∉ t ∧ ∀ r ∈ rs, r.isTrailing = true
  | remark sp r => indents sp ∧ r.isAbove = true

lemma notMem_text_of_comment {r : Remark} (h : '\n' ∉ r.comment) : '\n' ∉ r.text := by
  rw [Remark.text]
  cases r.kind with
  | above => exact h
  | blank => exact List.not_mem_nil
  | trailing => simpa using h

/-- If comments and indents hold no line ends, it is one line indeed. -/
lemma exists_line {l : WovenLine} (hl : l.IsWoven indents)
    (hindents : ∀ ⦃sp⦄, indents sp → '\n' ∉ sp) (h : ∀ r ∈ l.remarks, '\n' ∉ r.comment) :
    ∃ t, '\n' ∉ t ∧ l.text = t ++ ['\n'] := by
  cases l with
  | code t rs =>
      refine ⟨t ++ (rs.map Remark.text).flatten, ?_, rfl⟩
      rw [List.mem_append, List.mem_flatten]
      rintro (ht | ⟨u, hu, hmem⟩)
      · exact hl.1 ht
      · obtain ⟨r, hr, rfl⟩ := List.mem_map.mp hu
        exact notMem_text_of_comment (h r hr) hmem
  | remark sp r =>
      have hr := notMem_text_of_comment (h r (List.mem_singleton_self r))
      rw [text, Remark.lineAt]
      split
      · exact ⟨[], List.not_mem_nil, rfl⟩
      · refine ⟨sp ++ r.text, ?_, rfl⟩
        rw [List.mem_append]
        rintro (hsp | hmem)
        · exact hindents hl.1 hsp
        · exact hr hmem

end WovenLine

/-- Texts that are the lines of a list. -/
structure AreLines (indents : Text → Prop) (plain text : Text) (rs : List Remark)
    (lines : List WovenLine) : Prop where
  woven : ∀ l ∈ lines, l.IsWoven indents
  plain : plain = lines.flatMap WovenLine.plain
  text : text = lines.flatMap WovenLine.text
  remarks : rs = lines.flatMap WovenLine.remarks

lemma AreLines.cons {plain text : Text} {rs : List Remark} {lines : List WovenLine}
    (h : AreLines indents plain text rs lines) {l : WovenLine} (hl : l.IsWoven indents) :
    AreLines indents (l.plain ++ plain) (l.text ++ text) (l.remarks ++ rs) (l :: lines) where
  woven := List.forall_mem_cons.mpr ⟨hl, h.woven⟩
  plain := by rw [List.flatMap_cons, ← h.plain]
  text := by rw [List.flatMap_cons, ← h.text]
  remarks := by rw [List.flatMap_cons, ← h.remarks]

/-- Texts that begin with the rest of a line of the code, and go on with further lines. -/
def AreRest (indents : Text → Prop) (a : Place) (plain text : Text) (rs : List Remark) : Prop :=
  ∃ front bs plain' text' rs' lines, (a = .closed → front = []) ∧ '\n' ∉ front ∧
    (∀ r ∈ bs, Remark.isTrailing r = true) ∧ AreLines indents plain' text' rs' lines ∧
      plain = front ++ '\n' :: plain' ∧
        text = front ++ ((bs.map Remark.text).flatten ++ '\n' :: text') ∧ rs = bs ++ rs'

/-- The rest of a line is a line, at the start of one. -/
lemma AreRest.exists_lines {a : Place} {plain text : Text} {rs : List Remark}
    (h : AreRest indents a plain text rs) : ∃ lines, AreLines indents plain text rs lines := by
  obtain ⟨front, bs, plain', text', rs', lines, -, hfront, hbs, hlines, rfl, rfl, rfl⟩ := h
  refine ⟨.code front bs :: lines, ?_⟩
  have hcons := hlines.cons (l := .code front bs) ⟨hfront, hbs⟩
  simpa [WovenLine.plain, WovenLine.text, WovenLine.remarks] using hcons

/-- Read up to the end of a line, a woven text is lines, or the rest of one and lines. -/
lemma Weave.lines_or_rest {a b : Place} {plain text : Text} {rs : List Remark}
    (h : Weave indents a plain text rs b) (hb : b = .start) :
    (a = .start ∧ ∃ lines, AreLines indents plain text rs lines) ∨
      AreRest indents a plain text rs := by
  induction h with
  | nil a => exact Or.inl ⟨hb, [], ⟨by simp, rfl, rfl, rfl⟩⟩
  | @code a b c _ _ _ ha hc _ ih =>
      rcases ih hb with ⟨hinside, -⟩ | hrest
      · cases hinside
      · obtain ⟨front, bs, plain', text', rs', lines, -, hfront, hbs, hlines, rfl, rfl, rfl⟩ :=
          hrest
        exact Or.inr ⟨c :: front, bs, plain', text', rs', lines, fun h => absurd h ha,
          fun hmem => (List.mem_cons.mp hmem).elim (fun h => hc h.symm) hfront, hbs, hlines, rfl,
          rfl, rfl⟩
  | lineEnd _ ih =>
      obtain ⟨lines, hlines⟩ : ∃ lines, AreLines indents _ _ _ lines :=
        (ih hb).elim (fun h => h.2) AreRest.exists_lines
      exact Or.inr ⟨[], [], _, _, _, lines, fun _ => rfl, List.not_mem_nil, by simp, hlines, rfl,
        rfl, rfl⟩
  | @above b sp plain text r rs hsp hr _ ih =>
      obtain ⟨lines, hlines⟩ : ∃ lines, AreLines indents plain text rs lines :=
        (ih hb).elim (fun h => h.2) AreRest.exists_lines
      exact Or.inl ⟨rfl, _, hlines.cons (l := .remark sp r) ⟨hsp, hr⟩⟩
  | @trailing a b plain text r rs hr _ ih =>
      rcases ih hb with ⟨hclosed, -⟩ | hrest
      · cases hclosed
      · obtain ⟨front, bs, plain', text', rs', lines, hnil, hfront, hbs, hlines, rfl, rfl, rfl⟩ :=
          hrest
        obtain rfl := hnil rfl
        exact Or.inr ⟨[], r :: bs, plain', text', rs', lines, fun _ => rfl, hfront,
          List.forall_mem_cons.mpr ⟨hr, hbs⟩, hlines, rfl, by simp, rfl⟩

/-- **Woven texts are lines**: the lines of the code, some with remarks at their ends, and remarks
on lines of their own in between. -/
theorem Weave.exists_lines {plain text : Text} {rs : List Remark}
    (h : Weave indents .start plain text rs .start) :
    ∃ lines, AreLines indents plain text rs lines := by
  rcases h.lines_or_rest rfl with ⟨-, hlines⟩ | hrest
  · exact hlines
  · exact hrest.exists_lines

end EventScript.Layout
