import EventScript.Proofs.Layout.Squeeze
import EventScript.Proofs.Text.Column

/-!
The column limit.

A fragment that does not fit is broken between its parts, and its parts are broken in turn. What is
left is never broken, so a line may be longer than the limit. It is not if the limit leaves room for
the widest of these pieces, with the texts that stay attached to it.

* `Layout.Tree.neededWidth`: the column limit that a fragment needs when it is broken at every place
  it may be broken at;
* `Layout.Tree.keepsTo_render`: a fragment that has as much stays within the limit;
* `Layout.Tree.length_le_columnLimit`: so do the lines of a statement.
-/

namespace EventScript.Layout.Tree

mutual

/-- The column limit that a fragment needs when it is broken at every place it may be broken at. It
starts at a column of a line with indent `sp`, and `trailing` more characters stand behind it on its
last line. -/
def neededWidth (p : Page) (sp : Text) (column trailing : Nat) : Tree → Nat
  | node opening parts separator closing remarks =>
    match parts with
    | [] => column + (node opening [] separator closing remarks).width + trailing
    | [only] => neededWidth p sp (column + opening.length) (trailing + closing.length) only
    | first :: second :: rest =>
      max (neededWidth p sp (column + opening.length) 0 first)
        (furtherWidth p (sp ++ p.indent)
          (sp.length + p.indent.length + (Text.trimStart separator).length)
          (closing.length + trailing) (second :: rest))

/-- The column limit that the further parts of a broken fragment need, each of which starts at a
column of a line of its own. -/
def furtherWidth (p : Page) (sp : Text) (column trailing : Nat) : List Tree → Nat
  | [] => 0
  | [last] => neededWidth p sp column trailing last
  | middle :: next :: rest =>
    max (neededWidth p sp column 0 middle) (furtherWidth p sp column trailing (next :: rest))

end

/-- A fragment on one line has all its texts on one line. -/
lemma notMem_oneLine {opening separator closing : Text} {first : Tree} {rest : List Tree}
    {remarks : List Remark} {c : Char}
    (h : c ∉ (node opening (first :: rest) separator closing remarks).oneLine) :
    c ∉ opening ∧ c ∉ first.oneLine ∧ (∀ t ∈ rest, c ∉ separator ∧ c ∉ t.oneLine) ∧
      c ∉ closing := by
  rw [oneLine_cons] at h
  simp only [List.mem_append, List.mem_flatMap, not_or, not_exists, not_and] at h
  obtain ⟨⟨hopening, hfirst, hrest⟩, hclosing⟩ := h
  exact ⟨hopening, hfirst, hrest, hclosing⟩

/-- A rendered text that stays within a limit, if no remarks wait behind it. -/
abbrev Keeps (limit column trailing : Nat) (r : Text × Pending) : Prop :=
  r.1.KeepsTo limit column trailing ∧ r.2 = .none

section Render

variable {p : Page}

lemma keeps_renderFlat {t : Tree} {column trailing : Nat} (h : t.allRemarks = [])
    (hline : '\n' ∉ t.oneLine) (hfits : column + t.width + trailing ≤ p.columnLimit) :
    Keeps p.columnLimit column trailing (renderFlat t .none) := by
  refine ⟨Text.keepsTo_of_notMem hline ?_, by rw [renderFlat, h, Pending.add_nil]⟩
  rwa [renderFlat, length_oneLine]

mutual

/-- **A fragment stays within the limit** if this leaves the room that the fragment needs. -/
theorem keepsTo_render (hp : '\n' ∉ p.indent) : ∀ (t : Tree) (sp : Text) (column trailing : Nat),
    t.allRemarks = [] → '\n' ∉ t.oneLine → '\n' ∉ sp →
      t.neededWidth p sp column trailing ≤ p.columnLimit →
        Keeps p.columnLimit column trailing (render p sp column trailing t .none)
  | node opening parts separator closing remarks, sp, column, trailing, h, hline, hsp, hneeds => by
      rw [render.eq_def]
      simp only
      split
      · next hfits => exact keeps_renderFlat h hline (of_decide_eq_true hfits)
      · obtain ⟨rfl, hparts⟩ := allRemarks_node_eq_nil h
        match parts with
        | [] =>
            rw [neededWidth] at hneeds
            exact keeps_renderFlat h hline hneeds
        | [only] =>
            rw [neededWidth] at hneeds
            obtain ⟨hopening, honly, -, hclosing⟩ := notMem_oneLine hline
            obtain ⟨hkeeps, hpending⟩ := keepsTo_render hp only sp (column + opening.length)
              (trailing + closing.length) (hparts only List.mem_cons_self) honly hsp hneeds
            simp only [Pending.add_nil]
            exact ⟨hkeeps.around hopening hclosing, hpending⟩
        | first :: second :: rest =>
            rw [neededWidth, Nat.max_le] at hneeds
            obtain ⟨hopening, hfirst, hfurther, hclosing⟩ := notMem_oneLine hline
            obtain ⟨hseparator, -⟩ := hfurther second List.mem_cons_self
            obtain ⟨hkeeps, hpending⟩ := keepsTo_render hp first sp (column + opening.length) 0
              (hparts first List.mem_cons_self) hfirst hsp hneeds.1
            obtain ⟨hrest, hpending'⟩ := keepsTo_renderRest hp (second :: rest) (sp ++ p.indent)
              (Text.trimStart separator) closing trailing (List.cons_ne_nil _ _)
              (fun t ht => hparts t (List.mem_cons_of_mem _ ht)) (fun t ht => (hfurther t ht).2)
              (by simp [hsp, hp])
              (fun hmem => hseparator ((List.dropWhile_sublist _).subset hmem)) hclosing
              (by rw [List.length_append]; exact hneeds.2)
            simp only [Pending.add_nil, hpending, Pending.lineEnd_none]
            refine ⟨hrest.below (Nat.le_trans (Text.reach_trimEnd_le _ _) ?_), hpending'⟩
            rw [Text.reach_behind hopening]
            exact hkeeps.reach

/-- The further parts of a broken fragment stay within the limit. -/
theorem keepsTo_renderRest (hp : '\n' ∉ p.indent) : ∀ (ts : List Tree)
    (sp mark closing : Text) (trailing : Nat), ts ≠ [] → (∀ t ∈ ts, t.allRemarks = []) →
      (∀ t ∈ ts, '\n' ∉ t.oneLine) → '\n' ∉ sp → '\n' ∉ mark → '\n' ∉ closing →
        furtherWidth p sp (sp.length + mark.length) (closing.length + trailing) ts ≤ p.columnLimit →
          Keeps p.columnLimit 0 trailing (renderRest p sp mark closing trailing ts .none)
  | [], sp, mark, closing, trailing, hne, h, hline, hsp, hmark, hclosing, hneeds => absurd rfl hne
  | [last], sp, mark, closing, trailing, _, h, hline, hsp, hmark, hclosing, hneeds => by
      rw [furtherWidth] at hneeds
      obtain ⟨hkeeps, hpending⟩ := keepsTo_render hp last sp (sp.length + mark.length)
        (closing.length + trailing) (h last List.mem_cons_self) (hline last List.mem_cons_self) hsp
        hneeds
      simp only [renderRest, hpending, Pending.lineStart_none]
      exact ⟨hkeeps.onLine hsp hmark hclosing, rfl⟩
  | middle :: next :: rest, sp, mark, closing, trailing, _, h, hline, hsp, hmark, hclosing,
      hneeds => by
      rw [furtherWidth, Nat.max_le] at hneeds
      obtain ⟨hkeeps, hpending⟩ := keepsTo_render hp middle sp (sp.length + mark.length) 0
        (h middle List.mem_cons_self) (hline middle List.mem_cons_self) hsp hneeds.1
      obtain ⟨hrest, hpending'⟩ := keepsTo_renderRest hp (next :: rest) sp mark closing trailing
        (List.cons_ne_nil _ _) (fun t ht => h t (List.mem_cons_of_mem _ ht))
        (fun t ht => hline t (List.mem_cons_of_mem _ ht)) hsp hmark hclosing hneeds.2
      simp only [renderRest, hpending, Pending.line_none]
      refine ⟨hrest.below ?_, hpending'⟩
      rw [Text.reach_onLine hsp hmark]
      exact hkeeps.reach

end

end Render

/-- **The lines of a statement keep to the column limit** whenever breaking them can do so: if the
limit leaves the room that its fragments need, no line is longer. -/
theorem length_le_columnLimit {p : Page} (hp : '\n' ∉ p.indent) {t : Tree}
    (h : t.allRemarks = []) (hline : '\n' ∉ t.oneLine) {sp before : Text} (hsp : '\n' ∉ sp)
    (hbefore : '\n' ∉ before)
    (hneeds : t.neededWidth p sp (sp.length + before.length) 0 ≤ p.columnLimit) :
    ∀ line ∈ (renderLine p sp before [] t).lines, line.length ≤ p.columnLimit := by
  obtain ⟨hkeeps, hpending⟩ :=
    keepsTo_render hp t sp (sp.length + before.length) 0 h hline hsp hneeds
  intro line hmem
  simp only [renderLine, hpending, Pending.line_none, List.append_nil] at hmem
  have hlength := Text.length_le_reach hmem
  rw [Text.reach_lineEnd, Text.reach_onLine hsp hbefore] at hlength
  exact Nat.le_trans hlength hkeeps.reach

/-- The layout of a test of three flags, two of them in parentheses. -/
def threeFlags : Tree :=
  between "if (".toList
    (node [] [leaf "Flag(1)".toList [],
      node ['('] [leaf "Flag(22)".toList [], leaf "Flag(333)".toList []] " || ".toList [')'] []]
      " && ".toList [] []) (')' :: Text.blockOpen)

/-- The last flag needs 20 columns, with the indent of two steps, the mark in front of it and the
closing texts behind it. On a page of this width no line is longer. -/
theorem length_le_columnLimit_threeFlags :
    threeFlags.neededWidth ⟨20, "  ".toList⟩ [] 0 0 = 20 ∧
      renderLine ⟨20, "  ".toList⟩ [] [] [] threeFlags =
        "if (Flag(1)
  && (Flag(22)
    || Flag(333)))".toList ++ Text.blockOpen ++ ['\n'] ∧
      ∀ line ∈ (renderLine ⟨20, "  ".toList⟩ [] [] [] threeFlags).lines, line.length ≤ 20 := by
  refine ⟨by decide, by decide, ?_⟩
  exact length_le_columnLimit (p := ⟨20, "  ".toList⟩) (by decide) (by decide) (by decide)
    (by decide) (by decide) (by decide)

end EventScript.Layout.Tree
