import EventScript.Proofs.Layout.Height
import EventScript.Proofs.Text.Trailing

/-!
The lines of a statement do not end in blanks.

Where the line of a fragment is broken behind its first part, the line is trimmed. Behind a further
part it is not, and the last line has only what is printed behind the fragment at its end. So these
lines need parts that end in ink by themselves, and the first one needs ink to be trimmed to.

* `Layout.Tree.isSealed`: fragments of which the last line ends in ink;
* `Layout.Tree.isFirm`: fragments of which all lines but the last one do;
* `Remark.IsClean`: remarks that are blank lines or have a clean comment;
* `Layout.Tree.IsNeat`: fragments that are both, with texts on one line. A fragment is neat if its
  parts are (`isNeat_node`);
* `Layout.Tree.IsNeat.renderLine`: the lines of a neat statement with clean remarks are neat.
-/

namespace EventScript

/-! ### Clean remarks -/

namespace Remark

/-- The comment of a remark is clean if it is printed. -/
def IsClean (r : Remark) : Prop := r.kind ≠ .blank → r.comment.IsClean

instance (r : Remark) : Decidable r.IsClean :=
  inferInstanceAs (Decidable (r.kind ≠ .blank → r.comment.IsClean))

variable {r : Remark} {rs : List Remark}

/-- What a clean remark contributes to a line is on one line and trimmed. -/
lemma IsClean.text (h : r.IsClean) : '\n' ∉ r.text ∧ r.text.IsTrimmed := by
  rw [Remark.text]
  rw [IsClean] at h
  cases hkind : r.kind with
  | above =>
      have hcomment := h (by rw [hkind]; decide)
      exact ⟨hcomment.oneLine, hcomment.isTrimmed⟩
  | blank => exact ⟨List.not_mem_nil, Text.isTrimmed_nil⟩
  | trailing =>
      have hcomment := h (by rw [hkind]; decide)
      refine ⟨by simpa using hcomment.oneLine, ?_⟩
      exact Text.isTrimmed_of_endsInInk (Text.endsInInk_append hcomment.endsInInk [' '])

lemma notMem_suffix_of_isClean (h : ∀ r ∈ rs, r.IsClean) : '\n' ∉ suffix rs :=
  Layout.notMem_suffix fun r hr => (h r hr).text.1

lemma isTrimmed_suffix (h : ∀ r ∈ rs, r.IsClean) : (suffix rs).IsTrimmed := by
  refine Text.isTrimmed_flatten fun t ht => ?_
  obtain ⟨r, hr, rfl⟩ := List.mem_map.mp ht
  exact (h r (List.mem_of_mem_filter hr)).text.2

/-- A clean remark above is a neat line. -/
lemma isNeat_lineAt {sp line : Text} (hsp : '\n' ∉ sp) (hline : '\n' ∉ line)
    (htrimmed : line.IsTrimmed) : (lineAt sp line).IsNeat := by
  rw [lineAt]
  split
  · exact Text.isNeat_line List.not_mem_nil Text.isTrimmed_nil
  · next hempty =>
      have hink := Text.endsInInk_iff.mpr ⟨mt List.isEmpty_iff.mpr hempty, htrimmed⟩
      exact Text.isNeat_line (List.not_mem_append hsp hline)
        (Text.isTrimmed_of_endsInInk (Text.endsInInk_append hink sp))

end Remark

namespace Layout

/-! ### Lines that end in ink -/

namespace CodeLine

/-- Lines all but the last of which end in ink. -/
def InkedAbove (ls : List CodeLine) : Prop := ∀ l ∈ ls.dropLast, Text.endsInInk l.code = true

/-- Lines the last of which ends in ink. -/
abbrev InkedBelow : List CodeLine → Prop := EndsIn fun l => Text.endsInInk l.code = true

variable {ls ms : List CodeLine}

/-- Lines all of which end in ink. -/
lemma InkedAbove.forall (h : InkedAbove ls) (hlast : InkedBelow ls) :
    ∀ l ∈ ls, Text.endsInInk l.code = true := by
  obtain ⟨front, l, rfl, hl⟩ := hlast
  rw [InkedAbove, List.dropLast_concat] at h
  rw [List.forall_mem_append, List.forall_mem_singleton]
  exact ⟨h, hl⟩

lemma inkedAbove_singleton (l : CodeLine) : InkedAbove [l] :=
  fun _ hl => absurd hl List.not_mem_nil

lemma forall_endsInInk_opened (h : ∀ l ∈ ls, Text.endsInInk l.code = true) (mark : Text)
    (ts : List Tree) : ∀ l ∈ opened mark ts ls, Text.endsInInk l.code = true := by
  cases ls with
  | nil => exact h
  | cons l ls =>
      rw [List.forall_mem_cons] at h
      exact List.forall_mem_cons.mpr ⟨Text.endsInInk_append h.1 mark, h.2⟩

lemma forall_endsInInk_broken (h : ∀ l ∈ ls, Text.endsInInk l.code = true) :
    ∀ l ∈ broken ls, Text.endsInInk l.code = true := by
  cases ls with
  | nil => exact h
  | cons l ls => exact List.forall_mem_cons.mpr (List.forall_mem_cons.mp h)

lemma dropLast_opened (mark : Text) (ts : List Tree) (ls : List CodeLine) :
    (opened mark ts ls).dropLast = opened mark ts ls.dropLast := by
  cases ls with
  | nil => rfl
  | cons l ls => cases ls <;> rfl

lemma dropLast_ended (f : Text → Text) (ls : List CodeLine) :
    (ended f ls).dropLast = ls.dropLast := by
  rcases List.eq_nil_or_concat' ls with rfl | ⟨front, l, rfl⟩
  · rfl
  · rw [ended_concat, List.dropLast_concat, List.dropLast_concat]

lemma InkedAbove.opened (h : InkedAbove ls) (mark : Text) (ts : List Tree) :
    InkedAbove (CodeLine.opened mark ts ls) := by
  rw [InkedAbove, dropLast_opened]
  exact forall_endsInInk_opened h mark ts

lemma InkedAbove.ended (h : InkedAbove ls) (f : Text → Text) :
    InkedAbove (CodeLine.ended f ls) := by
  rw [InkedAbove, dropLast_ended]
  exact h

/-- Lines below others that all end in ink. -/
lemma InkedAbove.append (h : InkedAbove ms) (hls : ∀ l ∈ ls, Text.endsInInk l.code = true) :
    InkedAbove (ls ++ ms) := by
  by_cases hms : ms = []
  · rw [hms, List.append_nil]
    exact fun l hl => hls l (List.dropLast_subset ls hl)
  · rw [InkedAbove, List.dropLast_append_of_ne_nil hms, List.forall_mem_append]
    exact ⟨hls, h⟩

lemma InkedBelow.opened (h : InkedBelow ls) (mark : Text) (ts : List Tree) :
    InkedBelow (CodeLine.opened mark ts ls) :=
  EndsIn.opened h fun _ hl => Text.endsInInk_append hl mark

/-- A text that ends in ink, put behind the last line, makes that line end in ink. -/
lemma EndsUnbroken.inkedBelow (h : EndsUnbroken ls) {closing : Text}
    (hclosing : Text.endsInInk closing = true) :
    InkedBelow (CodeLine.ended (· ++ closing) ls) :=
  h.ended fun l _ => Text.endsInInk_append hclosing l.code

/-- A last line that ends in ink does so with a trimmed text behind it. -/
lemma InkedBelow.ended (h : InkedBelow ls) {closing : Text} (hclosing : closing.IsTrimmed) :
    InkedBelow (CodeLine.ended (· ++ closing) ls) :=
  EndsIn.ended h fun _ hl => Text.endsInInk_append_of_isTrimmed hl hclosing

/-- A last line with ink ends in it when it is trimmed, and then all lines do. -/
lemma InkedAbove.forall_trimmed (h : InkedAbove ls) (hlast : EndsInInk ls) (mark : Text)
    (ts : List Tree) :
    ∀ l ∈ CodeLine.ended Text.trimEnd (CodeLine.opened mark ts ls),
      Text.endsInInk l.code = true := by
  refine ((h.opened mark ts).ended Text.trimEnd).forall ?_
  refine (EndsIn.opened hlast fun l hl => ?_).ended fun l hl => Text.endsInInk_trimEnd hl
  rw [Tree.hasInk_append, hl, Bool.or_true]

end CodeLine

namespace Tree

open CodeLine

/-! ### Firm and sealed fragments -/

mutual

/-- Whether the last line of a fragment ends in ink wherever it is broken. -/
def isSealed : Tree → Bool
  | node opening parts _ closing _ =>
    Text.endsInInk closing ||
      closing.isEmpty && if parts.isEmpty then Text.endsInInk opening else lastSealed parts

/-- Whether the last line of the last part ends in ink. -/
def lastSealed : List Tree → Bool
  | [] => false
  | [t] => t.isSealed
  | _ :: t :: ts => lastSealed (t :: ts)

end

mutual

/-- Whether all lines of a fragment but the last one end in ink wherever it is broken: the first
part has ink on its last line, and the further ones end in ink. -/
def isFirm : Tree → Bool
  | node _ parts _ _ _ =>
    areFirm parts && (parts.head?.all isAnchored && parts.tail.all isSealed)

/-- Whether all parts of a node are firm. -/
def areFirm : List Tree → Bool
  | [] => true
  | t :: ts => t.isFirm && areFirm ts

end

lemma isFirm_cons {opening separator closing : Text} {first : Tree} {rest : List Tree}
    {remarks : List Remark} :
    (node opening (first :: rest) separator closing remarks).isFirm = true ↔
      (first.isFirm = true ∧ areFirm rest = true) ∧ first.isAnchored = true ∧
        rest.all isSealed = true := by
  rw [isFirm, areFirm, Bool.and_eq_true, Bool.and_eq_true, Bool.and_eq_true]
  rfl

mutual

lemma endsInInk_oneLine : ∀ t : Tree, t.isSealed = true → Text.endsInInk t.oneLine = true
  | node opening parts separator closing remarks, h => by
      rw [isSealed, Bool.or_eq_true, Bool.and_eq_true] at h
      rw [oneLine]
      rcases h with h | ⟨hclosing, h⟩
      · exact Text.endsInInk_append h _
      · rw [List.isEmpty_iff.mp hclosing, List.append_nil]
        split at h
        · next hparts =>
            rw [List.isEmpty_iff.mp hparts, partTexts, List.intercalate_nil, List.append_nil]
            exact h
        · exact Text.endsInInk_append (endsInInk_parts separator parts h) opening

lemma endsInInk_parts (separator : Text) : ∀ ts : List Tree, lastSealed ts = true →
    Text.endsInInk (separator.intercalate (partTexts ts)) = true
  | [], h => by cases h
  | [t], h => by
      rw [partTexts, partTexts, List.intercalate_singleton]
      exact endsInInk_oneLine t h
  | t :: u :: ts, h => by
      have hrest := endsInInk_parts separator (u :: ts) h
      rw [partTexts] at hrest
      rw [partTexts, partTexts, List.intercalate_cons_cons]
      exact Text.endsInInk_append hrest _

end

section Lines

variable {p : Page}

mutual

/-- **The last line of a sealed fragment ends in ink.** -/
lemma inkedBelow_codeLines : ∀ (t : Tree) (sp : Text) (column trailing : Nat),
    t.isSealed = true → InkedBelow (codeLines p sp column trailing t)
  | node opening parts separator closing remarks, sp, column, trailing, h => by
      have hflat := endsInInk_oneLine _ h
      rw [isSealed, Bool.or_eq_true, Bool.and_eq_true, List.isEmpty_iff] at h
      rw [codeLines.eq_def]
      simp only
      split
      · exact ⟨[], _, rfl, hflat⟩
      · match parts with
        | [] => exact ⟨[], _, rfl, hflat⟩
        | [only] =>
            rcases h with h | ⟨rfl, h⟩
            · exact ((isStretch_codeLines only sp _ _).opened _ _).endsUnbroken.inkedBelow h
            · exact ((inkedBelow_codeLines only sp _ _ h).opened _ _).ended Text.isTrimmed_nil
        | first :: second :: rest =>
            exact (inkedBelow_furtherLines (second :: rest) _ _ _ _ (List.cons_ne_nil _ _)
              h).behind _

lemma inkedBelow_furtherLines : ∀ (ts : List Tree) (sp mark closing : Text) (trailing : Nat),
    ts ≠ [] → (Text.endsInInk closing = true ∨ closing = [] ∧ lastSealed ts = true) →
      InkedBelow (furtherLines p sp mark closing trailing ts)
  | [], _, _, _, _, hne, _ => absurd rfl hne
  | [last], sp, _, _, _, _, h => by
      rcases h with h | ⟨rfl, h⟩
      · exact ((isStretch_codeLines last sp _ _).opened _ _).endsUnbroken.inkedBelow h
      · exact ((inkedBelow_codeLines last sp _ _ h).opened _ _).ended Text.isTrimmed_nil
  | _ :: next :: rest, sp, _, _, _, _, h =>
      (inkedBelow_furtherLines (next :: rest) sp _ _ _ (List.cons_ne_nil _ _) h).behind _

end

mutual

/-- **All lines of a firm fragment but the last end in ink.** -/
lemma inkedAbove_codeLines : ∀ (t : Tree) (sp : Text) (column trailing : Nat),
    t.isFirm = true → InkedAbove (codeLines p sp column trailing t)
  | node opening parts separator closing remarks, sp, column, trailing, h => by
      rw [codeLines.eq_def]
      simp only
      split
      · exact inkedAbove_singleton _
      · match parts with
        | [] => exact inkedAbove_singleton _
        | [only] =>
            obtain ⟨⟨honly, -⟩, -, -⟩ := isFirm_cons.mp h
            exact ((inkedAbove_codeLines only sp _ _ honly).opened _ _).ended _
        | first :: second :: rest =>
            obtain ⟨⟨hfirst, hrest⟩, hanchored, hsealed⟩ := isFirm_cons.mp h
            -- The line of the first part is trimmed, so it needs ink, but not at its end.
            have htrimmed := (inkedAbove_codeLines first sp (column + opening.length) 0
              hfirst).forall_trimmed (endsInInk_codeLines first sp _ _ hanchored) opening
                [node opening (first :: second :: rest) separator closing remarks]
            exact (inkedAbove_furtherLines (second :: rest) _ _ _ _ hrest hsealed).append
              (forall_endsInInk_broken htrimmed)

lemma inkedAbove_furtherLines : ∀ (ts : List Tree) (sp mark closing : Text) (trailing : Nat),
    areFirm ts = true → ts.all isSealed = true →
      InkedAbove (furtherLines p sp mark closing trailing ts)
  | [], _, _, _, _, _, _ => fun _ hl => absurd hl List.not_mem_nil
  | [last], sp, _, _, _, h, _ => by
      rw [areFirm, Bool.and_eq_true] at h
      exact ((inkedAbove_codeLines last sp _ _ h.1).opened _ _).ended _
  | middle :: next :: rest, sp, mark, closing, trailing, h, hsealed => by
      rw [areFirm, Bool.and_eq_true] at h
      rw [List.all_cons, Bool.and_eq_true] at hsealed
      have hmiddle := (inkedAbove_codeLines middle sp (sp.length + mark.length) 0 h.1).forall
        (inkedBelow_codeLines middle sp _ _ hsealed.1)
      exact (inkedAbove_furtherLines (next :: rest) sp mark closing trailing h.2 hsealed.2).append
        (forall_endsInInk_opened hmiddle mark [])

end

/-- The lines of a firm and sealed statement all end in ink. -/
lemma forall_endsInInk_statementLines {t : Tree} (hfirm : t.isFirm = true)
    (hsealed : t.isSealed = true) (sp before : Text) {behind : Text} (hbehind : behind.IsTrimmed) :
    ∀ l ∈ t.statementLines p sp before behind, Text.endsInInk l.code = true := by
  have habove := inkedAbove_codeLines (p := p) t sp (sp.length + before.length) 0 hfirm
  have hbelow := inkedBelow_codeLines (p := p) t sp (sp.length + before.length) 0 hsealed
  exact ((habove.opened before []).ended _).forall ((hbelow.opened before []).ended hbehind)

end Lines

/-! ### Neat fragments -/

mutual

lemma isAnchored_of_isSealed : ∀ t : Tree, t.isSealed = true → t.isAnchored = true
  | node opening parts separator closing remarks, h => by
      rw [isSealed, Bool.or_eq_true, Bool.and_eq_true] at h
      rw [isAnchored, Bool.or_eq_true]
      rcases h with h | ⟨-, h⟩
      · exact Or.inl (Text.hasInk_of_endsInInk h)
      · right
        split at h
        · next hparts =>
            rw [if_pos hparts]
            exact Text.hasInk_of_endsInInk h
        · next hparts =>
            rw [if_neg hparts]
            exact lastAnchored_of_lastSealed parts h

lemma lastAnchored_of_lastSealed : ∀ ts : List Tree, lastSealed ts = true → lastAnchored ts = true
  | [], h => by cases h
  | [t], h => isAnchored_of_isSealed t h
  | _ :: t :: ts, h => lastAnchored_of_lastSealed (t :: ts) h

end

/-- A fragment that is firm and sealed, with texts that have no line ends in them. -/
structure IsNeat (t : Tree) : Prop where
  isFirm : t.isFirm = true
  isSealed : t.isSealed = true
  oneLine : '\n' ∉ t.oneLine

lemma isNeat_leaf {t : Text} (h : t.IsClean) (remarks : List Remark) : (leaf t remarks).IsNeat where
  isFirm := rfl
  isSealed := h.endsInInk
  oneLine := by rw [oneLine_leaf]; exact h.oneLine

lemma areFirm_of_forall {ts : List Tree} (h : ∀ t ∈ ts, t.IsNeat) : areFirm ts = true := by
  induction ts with
  | nil => rfl
  | cons t ts ih =>
      rw [List.forall_mem_cons] at h
      rw [areFirm, h.1.isFirm, ih h.2]
      rfl

lemma lastSealed_of_forall {ts : List Tree} (hne : ts ≠ []) (h : ∀ t ∈ ts, t.IsNeat) :
    lastSealed ts = true := by
  obtain ⟨front, t, rfl⟩ := (List.eq_nil_or_concat' ts).resolve_left hne
  have ht := h t List.mem_concat_self
  induction front with
  | nil => exact ht.isSealed
  | cons u front ih =>
      rw [List.cons_append, List.forall_mem_cons] at h
      have hrest := ih (by simp) h.2
      cases front with
      | nil => exact hrest
      | cons v front => exact hrest

/-- **A fragment of neat parts is neat** if there is ink behind them, or nothing at all. -/
lemma isNeat_node {opening separator closing : Text} {parts : List Tree} {remarks : List Remark}
    (hopening : '\n' ∉ opening) (hseparator : '\n' ∉ separator) (hparts : ∀ t ∈ parts, t.IsNeat)
    (hclosing : closing.IsClean ∨ closing = [] ∧ parts ≠ []) :
    (node opening parts separator closing remarks).IsNeat where
  isFirm := by
    have hfirm := areFirm_of_forall hparts
    cases parts with
    | nil => rfl
    | cons first rest =>
        rw [List.forall_mem_cons] at hparts
        rw [areFirm, Bool.and_eq_true] at hfirm
        refine isFirm_cons.mpr ⟨hfirm, isAnchored_of_isSealed first hparts.1.isSealed, ?_⟩
        exact List.all_eq_true.mpr fun t ht => (hparts.2 t ht).isSealed
  isSealed := by
    rw [isSealed, Bool.or_eq_true]
    rcases hclosing with hclosing | ⟨rfl, hne⟩
    · exact Or.inl hclosing.endsInInk
    · right
      rw [if_neg (mt List.isEmpty_iff.mp hne), lastSealed_of_forall hne hparts]
      rfl
  oneLine := by
    have htexts : '\n' ∉ separator.intercalate (partTexts parts) := by
      refine Text.notMem_intercalate hseparator ?_
      rw [partTexts_eq_map, List.forall_mem_map]
      exact fun t ht => (hparts t ht).oneLine
    have hend : '\n' ∉ closing := by
      rcases hclosing with hclosing | ⟨rfl, -⟩
      · exact hclosing.oneLine
      · exact List.not_mem_nil
    rw [oneLine]
    exact List.not_mem_append (List.not_mem_append hopening htexts) hend

lemma isNeat_between {opening closing : Text} {t : Tree} (hopening : '\n' ∉ opening)
    (ht : t.IsNeat) (hclosing : closing.IsClean) : (between opening t closing).IsNeat :=
  isNeat_node hopening List.not_mem_nil (List.forall_mem_singleton.mpr ht) (Or.inl hclosing)

/-- What stays in front of a fragment need not end in ink: its line is trimmed if it is broken. -/
lemma isNeat_behind {opening closing : Text} {t : Tree} (hopening : '\n' ∉ opening)
    (hink : hasInk opening = true) (ht : t.IsNeat) (hclosing : closing.IsClean) :
    (behind opening t closing).IsNeat where
  isFirm := by
    have hleaf : (leaf opening []).isAnchored = true := hink
    refine isFirm_cons.mpr ⟨⟨rfl, ?_⟩, hleaf, ?_⟩
    · rw [areFirm, ht.isFirm]
      rfl
    · rw [List.all_cons, ht.isSealed]
      rfl
  isSealed := by
    rw [behind, isSealed, hclosing.endsInInk]
    rfl
  oneLine := by
    rw [oneLine_behind]
    exact List.not_mem_append (List.not_mem_append hopening ht.oneLine) hclosing.oneLine

/-! ### Printed lines -/

variable {p : Page}

/-- A line of code that ends in ink is neat, with clean remarks at its end. -/
lemma isNeat_code {l : CodeLine} (hl : l.IsUncut) (hink : Text.endsInInk l.code = true)
    (hremarks : ∀ r ∈ l.remarks, r.IsClean) (number : Nat) :
    (PrintedLine.code number l).text.IsNeat := by
  have htrimmed := Text.endsInInk_append_of_isTrimmed (Text.endsInInk_append hink l.indent)
    (Remark.isTrimmed_suffix hremarks)
  have hsuffix := Remark.notMem_suffix_of_isClean hremarks
  exact Text.isNeat_line (List.not_mem_append (List.not_mem_append hl.indent hl.code) hsuffix)
    (Text.isTrimmed_of_endsInInk htrimmed)

/-- **The lines of a neat statement are neat**, with clean remarks and a trimmed text behind. -/
theorem IsNeat.renderLine {t : Tree} (h : t.IsNeat) (ht : t.isTidy = true)
    (hremarks : ∀ r ∈ t.allRemarks, r.IsClean) (hp : '\n' ∉ p.indent) {sp before behind : Text}
    (hsp : '\n' ∉ sp) (hbefore : '\n' ∉ before) (hbehind : '\n' ∉ behind)
    (htrimmed : behind.IsTrimmed) : (t.renderLine p sp before behind).IsNeat := by
  have huncut := isUncut_statementLines hp h.oneLine hsp hbefore hbehind
  have hink := forall_endsInInk_statementLines (p := p) h.isFirm h.isSealed sp before htrimmed
  have hown : ∀ l ∈ t.statementLines p sp before behind, ∀ r ∈ l.remarks, r.IsClean :=
    fun l hl r hr => hremarks r (mem_allRemarks_of_statementLines hl hr)
  rw [renderLine_eq_printedLines ht]
  refine Text.isNeat_flatMap (forall_mem_printedLines _ (fun l hl => ?_) (fun l hl _ r hr => ?_)
    hown [] 0 fun _ hw => absurd hw List.not_mem_nil)
  · exact isNeat_code (huncut l hl) (hink l hl) (hown l hl)
  · exact Remark.isNeat_lineAt (huncut l hl).indent hr.text.1 hr.text.2

end Tree

end Layout

end EventScript
