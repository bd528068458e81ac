import EventScript.Proofs.Layout.Squeeze
import EventScript.Proofs.Layout.Weave

/-!
A fragment with remarks is laid out as the same fragment without them, with the remarks woven in.

* `Layout.Tree.stripped`: a fragment without its remarks;
* `Layout.Tree.isTidy`: no line of the fragment ends in a part that is all blanks, so that trimming
  a line does not reach a remark;
* `Layout.Tree.weaves_render`: what is rendered of a tidy fragment with remarks waiting;
* `Layout.Tree.weave_renderLine`: the lines of a statement. The remarks above come in the order of
  the fragment, and so do the trailing ones.
-/

namespace EventScript

namespace Remark

/-- No remark above is trailing. -/
lemma filter_isTrailing_isAbove (rs : List Remark) :
    (rs.filter isAbove).filter isTrailing = [] := by
  rw [List.filter_eq_nil_iff]
  intro r hr
  rw [isTrailing, (List.mem_filter.mp hr).2]
  exact Bool.false_ne_true

/-- No trailing remark is above. -/
lemma filter_isAbove_isTrailing (rs : List Remark) :
    (rs.filter isTrailing).filter isAbove = [] := by
  rw [List.filter_eq_nil_iff]
  intro r hr habove
  have htrailing := (List.mem_filter.mp hr).2
  rw [isTrailing, habove] at htrailing
  cases htrailing

lemma suffix_nil : suffix [] = [] := rfl

lemma filter_isAbove_self (rs : List Remark) :
    (rs.filter isAbove).filter isAbove = rs.filter isAbove :=
  List.filter_eq_self.mpr fun _ hr => (List.mem_filter.mp hr).2

lemma filter_isTrailing_self (rs : List Remark) :
    (rs.filter isTrailing).filter isTrailing = rs.filter isTrailing :=
  List.filter_eq_self.mpr fun _ hr => (List.mem_filter.mp hr).2

end Remark

namespace Layout

/-! ### Remarks that wait -/

namespace Pending

/-- Of one list of remarks the lines wait, and of another one the suffix. -/
def holding (as bs : List Remark) : Pending := ⟨Remark.linesAbove as, Remark.suffix bs⟩

lemma none_eq_holding : none = holding [] [] := rfl

lemma holding_add (as bs rs : List Remark) :
    (holding as bs).add rs = holding (as ++ rs) (bs ++ rs) := by
  rw [add, holding, holding, Remark.linesAbove_append, Remark.suffix_append]

lemma line_holding (as bs : List Remark) (t sp : Text) :
    (holding as bs).line t sp =
      (((Remark.linesAbove as).map (Remark.lineAt sp)).flatten ++
        (sp ++ t ++ Remark.suffix bs ++ ['\n']), none) := by
  simp [line, linesAt, holding]

lemma lineStart_holding (as bs : List Remark) (t sp : Text) :
    (holding as bs).lineStart t sp =
      (((Remark.linesAbove as).map (Remark.lineAt sp)).flatten ++ (sp ++ t), holding [] bs) := by
  simp [lineStart, linesAt, holding, Remark.linesAbove]

lemma lineEnd_holding (as bs : List Remark) (t : Text) :
    (holding as bs).lineEnd t = (t ++ Remark.suffix bs ++ ['\n'], holding as []) := by
  simp [lineEnd, holding, Remark.suffix]

end Pending

namespace Tree

/-! ### Fragments without remarks -/

mutual

/-- The fragment without remarks. -/
def stripped : Tree → Tree
  | node opening parts separator closing _ => node opening (strippedAll parts) separator closing []

/-- The parts of a node without remarks. -/
def strippedAll : List Tree → List Tree
  | [] => []
  | t :: ts => t.stripped :: strippedAll ts

end

mutual

lemma oneLine_stripped : ∀ t : Tree, t.stripped.oneLine = t.oneLine
  | node opening parts separator closing remarks => by
      rw [stripped, oneLine, oneLine, partTexts_strippedAll parts]

lemma partTexts_strippedAll : ∀ ts : List Tree, partTexts (strippedAll ts) = partTexts ts
  | [] => rfl
  | t :: ts => by
      rw [strippedAll, partTexts, partTexts, oneLine_stripped t, partTexts_strippedAll ts]

end

lemma width_stripped (t : Tree) : t.stripped.width = t.width := by
  rw [← length_oneLine, ← length_oneLine, oneLine_stripped]

lemma fits_stripped (p : Page) (column trailing : Nat) (t : Tree) :
    fits p column trailing t.stripped = fits p column trailing t := by
  rw [fits, fits, width_stripped]

mutual

lemma allRemarks_stripped : ∀ t : Tree, t.stripped.allRemarks = []
  | node opening parts separator closing remarks => by
      rw [stripped, allRemarks, partRemarks_strippedAll parts, List.append_nil]

lemma partRemarks_strippedAll : ∀ ts : List Tree, partRemarks (strippedAll ts) = []
  | [] => rfl
  | t :: ts => by
      rw [strippedAll, partRemarks, allRemarks_stripped t, partRemarks_strippedAll ts,
        List.append_nil]

end

lemma stripped_leaf (t : Text) (remarks : List Remark) :
    (leaf t remarks).stripped = leaf t [] := rfl

lemma stripped_behind (opening closing : Text) (t : Tree) :
    (behind opening t closing).stripped = behind opening t.stripped closing := rfl

lemma stripped_between (opening closing : Text) (t : Tree) :
    (between opening t closing).stripped = between opening t.stripped closing := rfl

/-! ### Tidy fragments -/

/-- Whether a text is more than blanks. -/
def hasInk (t : Text) : Bool := t.any fun c => !Text.isBlank c

mutual

/-- Whether the last line of a fragment is more than blanks wherever it is broken. -/
def isAnchored : Tree → Bool
  | node opening parts _ closing _ =>
    hasInk closing || if parts.isEmpty then hasInk opening else lastAnchored parts

/-- Whether the last line of the last part is more than blanks. -/
def lastAnchored : List Tree → Bool
  | [] => false
  | [t] => t.isAnchored
  | _ :: t :: ts => lastAnchored (t :: ts)

end

mutual

/-- Whether every part that a line may be broken behind is without parts, or more than blanks on its
last line. -/
def isTidy : Tree → Bool
  | node _ parts _ _ _ =>
    areTidy parts &&
      match parts with
      | first :: _ :: _ => first.isLeaf || first.isAnchored
      | _ => true

/-- Whether all parts of a node are tidy. -/
def areTidy : List Tree → Bool
  | [] => true
  | t :: ts => t.isTidy && areTidy ts

end

lemma isTidy_node {parts : List Tree} (h : areTidy parts = true)
    (hfirst : ∀ first second rest, parts = first :: second :: rest →
      (first.isLeaf || first.isAnchored) = true) (opening separator closing : Text)
    (remarks : List Remark) : (node opening parts separator closing remarks).isTidy = true := by
  rw [isTidy.eq_def]
  simp only [h, Bool.true_and]
  split
  · exact hfirst _ _ _ rfl
  · rfl

lemma isTidy_leaf (t : Text) (remarks : List Remark) : (leaf t remarks).isTidy = true := rfl

lemma isTidy_behind {t : Tree} (h : t.isTidy = true) (opening closing : Text) :
    (behind opening t closing).isTidy = true := by
  refine isTidy_node (by rw [areTidy, areTidy, areTidy, h]; rfl) ?_ _ _ _ _
  intro first second rest hparts
  obtain ⟨rfl, -⟩ := List.cons.inj hparts
  rfl

lemma isTidy_between {t : Tree} (h : t.isTidy = true) (opening closing : Text) :
    (between opening t closing).isTidy = true := by
  refine isTidy_node (by rw [areTidy, areTidy, h]; rfl) ?_ _ _ _ _
  intro first second rest hparts
  cases (List.cons.inj hparts).2

lemma hasInk_append (t u : Text) : hasInk (t ++ u) = (hasInk t || hasInk u) := List.any_append

mutual

lemma hasInk_oneLine : ∀ t : Tree, t.isAnchored = true → hasInk t.oneLine = true
  | node opening parts separator closing remarks, h => by
      rw [isAnchored, Bool.or_eq_true] at h
      rw [oneLine, hasInk_append, hasInk_append, Bool.or_eq_true, Bool.or_eq_true]
      rcases h with h | h
      · exact Or.inr h
      · split at h
        · exact Or.inl (Or.inl h)
        · exact Or.inl (Or.inr (hasInk_parts separator parts h))

lemma hasInk_parts (separator : Text) : ∀ ts : List Tree, lastAnchored ts = true →
    hasInk (separator.intercalate (partTexts ts)) = true
  | [], h => by cases h
  | [t], h => by
      rw [partTexts, partTexts, List.intercalate_singleton]
      exact hasInk_oneLine t h
  | t :: u :: ts, h => by
      have hrest := hasInk_parts separator (u :: ts) h
      rw [partTexts] at hrest
      rw [partTexts, partTexts, List.intercalate_cons_cons, hasInk_append, hrest, Bool.or_true]

end

/-! ### Rendering with remarks waiting -/

/-- What a rendered text `d` with remarks is beside the text `s` without them, from a place on. Of
the remarks that waited at first, `as` above and `bs` trailing, and those of the fragment, `all`,
the ones in `new` were put in, and others wait behind it. None waits above if one was put in. -/
structure Rendered (indents : Text → Prop) (a : Place) (as bs all : List Remark)
    (s d : Text × Pending) (as' bs' new : List Remark) : Prop where
  plain_pending : s.2 = .none
  pending : d.2 = .holding as' bs'
  runs : Runs indents a s.1 d.1 new
  above : new.filter Remark.isAbove ++ as'.filter Remark.isAbove =
    (as ++ all).filter Remark.isAbove
  trailing : new.filter Remark.isTrailing ++ bs'.filter Remark.isTrailing =
    (bs ++ all).filter Remark.isTrailing
  order : new = [] ∨ as'.filter Remark.isAbove = []

variable {indents : Text → Prop}

lemma text_flat (t : Tree) (as bs : List Remark) :
    (renderFlat t.stripped .none).1 = (renderFlat t (.holding as bs)).1 := by
  rw [renderFlat, renderFlat, oneLine_stripped]

/-- A fragment without breaks: all remarks wait. -/
lemma rendered_flat {a : Place} (ha : a ≠ .closed) (t : Tree) (as bs : List Remark) :
    Rendered indents a as bs t.allRemarks (renderFlat t.stripped .none)
      (renderFlat t (.holding as bs)) (as ++ t.allRemarks) (bs ++ t.allRemarks) [] where
  plain_pending := by rw [renderFlat, allRemarks_stripped, Pending.add_nil]
  pending := Pending.holding_add as bs t.allRemarks
  runs := by
    rw [text_flat t as bs]
    exact Runs.code indents ha t.oneLine
  above := rfl
  trailing := rfl
  order := Or.inl rfl

lemma anchored_flat {a : Place} (ha : a ≠ .closed) {t : Tree} (ht : t.isAnchored = true)
    (as bs : List Remark) :
    Anchored indents a (renderFlat t.stripped .none).1 (renderFlat t (.holding as bs)).1 [] := by
  refine ⟨[], [], t.oneLine, ?_, rfl, hasInk_oneLine t ht, ⟨a, ha, .nil a⟩⟩
  rw [renderFlat, oneLine_stripped, List.nil_append]

/-- A fragment between two texts of code. -/
lemma Rendered.between {a b : Place} {as bs all as' bs' new : List Remark} {s d : Text × Pending}
    {opening : Text} (hw : Weave indents a opening opening [] b)
    (h : Rendered indents b as bs all s d as' bs' new) (closing : Text) :
    Rendered indents a as bs all (opening ++ s.1 ++ closing, s.2) (opening ++ d.1 ++ closing, d.2)
      as' bs' new where
  plain_pending := h.plain_pending
  pending := h.pending
  runs := (h.runs.behind hw).append_code closing
  above := h.above
  trailing := h.trailing
  order := h.order

/-- Remarks of its own wait before those of the parts. -/
lemma Rendered.of_add {a : Place} {as bs rs all as' bs' new : List Remark} {s d : Text × Pending}
    (h : Rendered indents a (as ++ rs) (bs ++ rs) all s d as' bs' new) :
    Rendered indents a as bs (rs ++ all) s d as' bs' new where
  plain_pending := h.plain_pending
  pending := h.pending
  runs := h.runs
  above := by rw [h.above, List.append_assoc]
  trailing := by rw [h.trailing, List.append_assoc]
  order := h.order

/-- The remarks that wait above may be put in first. -/
lemma Rendered.above_first {a : Place} {as bs all as' bs' new : List Remark} {s d : Text × Pending}
    (h : Rendered indents a as bs all s d as' bs' new) :
    as'.filter Remark.isAbove ++ new.filter Remark.isAbove =
      (as ++ all).filter Remark.isAbove := by
  rw [← h.above]
  rcases h.order with hnew | has
  · rw [hnew, List.filter_nil, List.append_nil, List.nil_append]
  · rw [has, List.nil_append, List.append_nil]

/-- A line that holds a fragment takes all remarks. -/
lemma Rendered.weave_line {b : Place} {as bs all as' bs' new : List Remark} {s d : Text × Pending}
    {sp before : Text} (hsp : indents sp)
    (hw : Weave indents .start (sp ++ before) (sp ++ before) [] b)
    (h : Rendered indents b as bs all s d as' bs' new) (code : Text) (rs : List Remark) :
    Weave indents .start (sp ++ (before ++ s.1 ++ code) ++ ['\n'])
      (((Remark.linesAbove as').map (Remark.lineAt sp)).flatten ++
        (sp ++ (before ++ d.1 ++ (code ++ Remark.suffix rs)) ++ Remark.suffix bs' ++ ['\n']))
      (as'.filter Remark.isAbove ++ (new ++ (rs ++ bs').filter Remark.isTrailing)) .start := by
  have hline := (Weave.linesAbove hsp as').append
    (((h.runs.behind hw).append_code code).lineEnd (rs ++ bs'))
  simpa only [Remark.suffix_append, List.append_assoc, List.nil_append] using hline

/-- A line that is started with a fragment takes the remarks above. -/
lemma Rendered.lineStart {b : Place} {as bs all as' bs' new : List Remark} {s d : Text × Pending}
    {sp mark : Text} (hsp : indents sp)
    (hw : Weave indents .start (sp ++ mark) (sp ++ mark) [] b)
    (h : Rendered indents b as bs all s d as' bs' new) (closing : Text) :
    Rendered indents .start as bs all (s.2.lineStart (mark ++ s.1 ++ closing) sp)
      (d.2.lineStart (mark ++ d.1 ++ closing) sp) [] bs' (as'.filter Remark.isAbove ++ new) where
  plain_pending := by rw [h.plain_pending, Pending.lineStart_none]
  pending := by rw [h.pending, Pending.lineStart_holding]
  runs := by
    have hstart := ((h.runs.behind hw).append_code closing).behind (Weave.linesAbove hsp as')
    rw [h.plain_pending, h.pending, Pending.lineStart_none, Pending.lineStart_holding]
    simpa only [List.append_assoc, List.nil_append] using hstart
  above := by
    rw [List.filter_append, Remark.filter_isAbove_self, h.above_first, List.filter_nil,
      List.append_nil]
  trailing := by
    rw [List.filter_append, Remark.filter_isTrailing_isAbove, List.nil_append, h.trailing]
  order := Or.inr rfl

/-- What is rendered of a part and trimmed behind it, if trimming does not reach a remark. -/
lemma Rendered.head {a b : Place} {as bs all as' bs' new : List Remark} {s d : Text × Pending}
    {opening : Text} (ha : a ≠ .closed) (hw : Weave indents a opening opening [] b)
    (h : Rendered indents b as bs all s d as' bs' new)
    (hend : s.1 = d.1 ∧ new = [] ∨ Anchored indents b s.1 d.1 new) :
    Weave indents a (Text.trimEnd (opening ++ s.1) ++ ['\n'])
      (Text.trimEnd (opening ++ d.1) ++ Remark.suffix bs' ++ ['\n'])
      (new ++ bs'.filter Remark.isTrailing) .start := by
  have hruns : Runs indents a (Text.trimEnd (opening ++ s.1)) (Text.trimEnd (opening ++ d.1))
      new := by
    rcases hend with ⟨htext, rfl⟩ | hanchored
    · rw [htext]
      exact Runs.code indents ha _
    · exact (hanchored.behind hw).trimEnd
  exact hruns.lineEnd bs'

/-- The further parts behind the first line of a broken fragment. -/
lemma Rendered.broken {a b : Place} {as bs all as₁ bs₁ new₁ all' bs' new : List Remark}
    {s d s' d' : Text × Pending} {head head' : Text}
    (h : Rendered indents b as bs all s d as₁ bs₁ new₁)
    (hw : Weave indents a head head' (new₁ ++ bs₁.filter Remark.isTrailing) .start)
    (h' : Rendered indents .start as₁ [] all' s' d' [] bs' new) :
    Rendered indents a as bs (all ++ all') (head ++ s'.1, s'.2) (head' ++ d'.1, d'.2) [] bs'
      (new₁ ++ bs₁.filter Remark.isTrailing ++ new) where
  plain_pending := h'.plain_pending
  pending := h'.pending
  runs := h'.runs.behind hw
  above := by
    have habove := h'.above
    rw [List.filter_nil, List.append_nil, List.filter_append] at habove
    rw [List.filter_append, List.filter_append, Remark.filter_isAbove_isTrailing, List.append_nil,
      habove, List.filter_nil, List.append_nil, ← List.append_assoc, h.above, ← List.filter_append,
      List.append_assoc]
  trailing := by
    have htrailing := h'.trailing
    rw [List.nil_append] at htrailing
    rw [List.filter_append, List.append_assoc, htrailing, List.filter_append,
      Remark.filter_isTrailing_self, h.trailing, ← List.filter_append, List.append_assoc]
  order := Or.inr rfl

/-- The further parts behind a line of a broken fragment that takes all remarks. -/
lemma Rendered.middle {as bs all as₁ bs₁ new₁ all' bs' new : List Remark}
    {s d s' d' : Text × Pending} {b : Place} {line line' : Text}
    (h : Rendered indents b as bs all s d as₁ bs₁ new₁)
    (hw : Weave indents .start line line'
      (as₁.filter Remark.isAbove ++ (new₁ ++ bs₁.filter Remark.isTrailing)) .start)
    (h' : Rendered indents .start [] [] all' s' d' [] bs' new) :
    Rendered indents .start as bs (all ++ all') (line ++ s'.1, s'.2) (line' ++ d'.1, d'.2) [] bs'
      (as₁.filter Remark.isAbove ++ (new₁ ++ bs₁.filter Remark.isTrailing) ++ new) where
  plain_pending := h'.plain_pending
  pending := h'.pending
  runs := h'.runs.behind hw
  above := by
    have hrest := h'.above
    rw [List.filter_nil, List.append_nil, List.nil_append] at hrest
    rw [List.filter_append, List.filter_append, List.filter_append, Remark.filter_isAbove_self,
      Remark.filter_isAbove_isTrailing, List.append_nil, h.above_first, hrest, List.filter_nil,
      List.append_nil, ← List.filter_append, List.append_assoc]
  trailing := by
    have hrest := h'.trailing
    rw [List.nil_append] at hrest
    rw [List.filter_append, List.append_assoc, hrest, List.filter_append,
      Remark.filter_isTrailing_isAbove, List.nil_append, List.filter_append,
      Remark.filter_isTrailing_self, h.trailing, ← List.filter_append, List.append_assoc]
  order := Or.inr rfl

section Render

variable {p : Page}

mutual

/-- **A fragment with remarks**, broken or not, is the fragment without them and the remarks woven
in or waiting. -/
theorem weaves_render (hp : ∀ ⦃sp⦄, indents sp → indents (sp ++ p.indent)) : ∀ (t : Tree)
    (sp : Text) (column trailing : Nat) (as bs : List Remark) (a : Place), t.isTidy = true →
      indents sp → a ≠ .closed → ∃ as' bs' new,
        Rendered indents a as bs t.allRemarks (render p sp column trailing t.stripped .none)
          (render p sp column trailing t (.holding as bs)) as' bs' new ∧
        (t.isLeaf = true → (render p sp column trailing t.stripped .none).1 =
          (render p sp column trailing t (.holding as bs)).1 ∧ new = []) ∧
        (t.isAnchored = true →
          Anchored indents a (render p sp column trailing t.stripped .none).1
            (render p sp column trailing t (.holding as bs)).1 new)
  | node opening parts separator closing remarks, sp, column, trailing, as, bs, a, h, hsp, ha => by
      rw [render.eq_def, render.eq_def p sp column trailing (node _ _ _ _ _)]
      by_cases hfits :
          fits p column trailing (node opening parts separator closing remarks) = true
      · have hfits' := hfits
        rw [← fits_stripped, stripped] at hfits'
        simp only [stripped, hfits, hfits', if_true]
        exact ⟨_, _, _, rendered_flat ha _ as bs, fun _ => ⟨text_flat (node _ _ _ _ _) as bs, rfl⟩,
          fun ht => anchored_flat ha ht as bs⟩
      · have hfits' := hfits
        rw [← fits_stripped, stripped] at hfits'
        simp only [stripped, hfits, hfits', Bool.false_eq_true, if_false]
        obtain ⟨b, hb, hw⟩ := Runs.code indents ha opening
        match parts with
        | [] =>
            exact ⟨_, _, _, rendered_flat ha _ as bs,
              fun _ => ⟨text_flat (node _ [] _ _ _) as bs, rfl⟩,
              fun ht => anchored_flat ha ht as bs⟩
        | [only] =>
            simp only [isTidy, areTidy, Bool.and_true] at h
            obtain ⟨as', bs', new, hrendered, -, hanchored⟩ := weaves_render hp only sp
              (column + opening.length) (trailing + closing.length) (as ++ remarks) (bs ++ remarks)
              b h hsp hb
            simp only [strippedAll, Pending.add_nil, Pending.holding_add, allRemarks, partRemarks,
              List.append_nil]
            refine ⟨as', bs', new, (hrendered.between hw closing).of_add,
              fun hleaf => absurd hleaf Bool.false_ne_true, ?_⟩
            intro ht
            rw [isAnchored, lastAnchored, Bool.or_eq_true] at ht
            rcases ht with ht | ht
            · exact Anchored.of_runs (hrendered.runs.behind hw) ht
            · exact ((hanchored ht).behind hw).append_code closing
        | first :: second :: rest =>
            simp only [isTidy, Bool.and_eq_true] at h
            obtain ⟨hparts, hfirst⟩ := h
            rw [areTidy, Bool.and_eq_true] at hparts
            obtain ⟨as₁, bs₁, new₁, hhead, hleaf, hend⟩ := weaves_render hp first sp
              (column + opening.length) 0 (as ++ remarks) (bs ++ remarks) b hparts.1 hsp hb
            obtain ⟨bs', new, hrest, hanchored⟩ := weaves_renderRest hp (second :: rest)
              (sp ++ p.indent) (Text.trimStart separator) closing trailing as₁ []
              (List.cons_ne_nil _ _) hparts.2 (hp hsp)
            have hline := hhead.head ha hw (((Bool.or_eq_true _ _).mp hfirst).imp hleaf hend)
            simp only [strippedAll, Pending.add_nil, Pending.holding_add, allRemarks,
              partRemarks.eq_2 first, hhead.plain_pending, hhead.pending, Pending.lineEnd_none,
              Pending.lineEnd_holding]
            refine ⟨[], bs', _, (hhead.broken hline hrest).of_add,
              fun hleaf => absurd hleaf Bool.false_ne_true, ?_⟩
            intro ht
            exact (hanchored ht).behind hline

/-- The further parts of a broken fragment. -/
theorem weaves_renderRest (hp : ∀ ⦃sp⦄, indents sp → indents (sp ++ p.indent)) : ∀ (ts : List Tree)
    (sp mark closing : Text) (trailing : Nat) (as bs : List Remark), ts ≠ [] →
      areTidy ts = true → indents sp → ∃ bs' new,
        Rendered indents .start as bs (partRemarks ts)
          (renderRest p sp mark closing trailing (strippedAll ts) .none)
          (renderRest p sp mark closing trailing ts (.holding as bs)) [] bs' new ∧
        ((hasInk closing || lastAnchored ts) = true →
          Anchored indents .start
            (renderRest p sp mark closing trailing (strippedAll ts) .none).1
            (renderRest p sp mark closing trailing ts (.holding as bs)).1 new)
  | [], sp, mark, closing, trailing, as, bs, hne, h, hsp => absurd rfl hne
  | [last], sp, mark, closing, trailing, as, bs, _, h, hsp => by
      rw [areTidy, areTidy, Bool.and_true] at h
      obtain ⟨b, hb, hw⟩ := Runs.code indents Place.start_ne_closed (sp ++ mark)
      obtain ⟨as', bs', new, hrendered, -, hanchored⟩ := weaves_render hp last sp
        (sp.length + mark.length) (closing.length + trailing) as bs b h hsp hb
      simp only [strippedAll, renderRest, partRemarks, List.append_nil]
      refine ⟨bs', _, hrendered.lineStart hsp hw closing, ?_⟩
      intro ht
      have hstart : Anchored indents .start
          (sp ++ mark ++ ((render p sp (sp.length + mark.length) (closing.length + trailing)
            last.stripped .none).1 ++ closing))
          (sp ++ mark ++ ((render p sp (sp.length + mark.length) (closing.length + trailing)
            last (.holding as bs)).1 ++ closing)) new := by
        rw [lastAnchored, Bool.or_eq_true] at ht
        rcases ht with ht | ht
        · exact (Anchored.of_runs hrendered.runs ht).behind hw
        · exact ((hanchored ht).append_code closing).behind hw
      have hlines := hstart.behind (Weave.linesAbove hsp as')
      rw [hrendered.plain_pending, hrendered.pending, Pending.lineStart_none,
        Pending.lineStart_holding]
      simpa only [List.append_assoc, List.nil_append] using hlines
  | middle :: next :: rest, sp, mark, closing, trailing, as, bs, _, h, hsp => by
      rw [areTidy, Bool.and_eq_true] at h
      obtain ⟨b, hb, hw⟩ := Runs.code indents Place.start_ne_closed (sp ++ mark)
      obtain ⟨as₁, bs₁, new₁, hmiddle, -⟩ := weaves_render hp middle sp
        (sp.length + mark.length) 0 as bs b h.1 hsp hb
      obtain ⟨bs', new, hrest, hanchored⟩ := weaves_renderRest hp (next :: rest) sp mark closing
        trailing [] [] (List.cons_ne_nil _ _) h.2 hsp
      have hline := hmiddle.weave_line hsp hw [] []
      simp only [List.append_nil, List.nil_append, Remark.suffix_nil] at hline
      simp only [strippedAll, renderRest, partRemarks.eq_2 middle, hmiddle.plain_pending,
        hmiddle.pending, Pending.line_none, Pending.line_holding]
      refine ⟨bs', _, hmiddle.middle hline hrest, ?_⟩
      intro ht
      exact (hanchored ht).behind hline

end

/-- **The lines of a statement with remarks** are its lines without them and the remarks woven in:
those above in the order of the fragment, and so the trailing ones, with those in `rs`, which are
put behind the text, among them. -/
theorem weave_renderLine (hp : ∀ ⦃sp⦄, indents sp → indents (sp ++ p.indent)) {t : Tree}
    (h : t.isTidy = true) {sp : Text} (hsp : indents sp) (before code : Text) (rs : List Remark) :
    ∃ new xs ys, Weave indents .start (renderLine p sp before code t.stripped)
        (renderLine p sp before (code ++ Remark.suffix rs) t) new .start ∧
      new.filter Remark.isAbove = t.allRemarks.filter Remark.isAbove ∧
      new.filter Remark.isTrailing = xs ++ rs.filter Remark.isTrailing ++ ys ∧
      xs ++ ys = t.allRemarks.filter Remark.isTrailing := by
  obtain ⟨b, hb, hw⟩ := Runs.code indents Place.start_ne_closed (sp ++ before)
  obtain ⟨as', bs', new, hrendered, -⟩ := weaves_render hp t sp (sp.length + before.length) 0 [] []
    b h hsp hb
  have hline := hrendered.weave_line hsp hw code rs
  rw [← Pending.none_eq_holding] at hrendered
  refine ⟨as'.filter Remark.isAbove ++ (new ++ (rs ++ bs').filter Remark.isTrailing),
    new.filter Remark.isTrailing, bs'.filter Remark.isTrailing, ?_, ?_, ?_, ?_⟩
  · simp only [renderLine, hrendered.plain_pending, hrendered.pending, Pending.line_none,
      Pending.line_holding]
    exact hline
  · rw [List.filter_append, List.filter_append, Remark.filter_isAbove_self,
      Remark.filter_isAbove_isTrailing, List.append_nil, hrendered.above_first, List.nil_append]
  · rw [List.filter_append, List.filter_append, Remark.filter_isTrailing_isAbove,
      Remark.filter_isTrailing_self, List.filter_append, List.nil_append, List.append_assoc]
  · exact hrendered.trailing

end Render

end Tree

end Layout

end EventScript
