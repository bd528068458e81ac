import EventScript.Layout.Render
import EventScript.Proofs.Text.Squeeze

/-!
Breaking a line changes nothing but blanks.

* `Layout.Tree.squeeze_render`: a fragment without remarks, broken or not, says what it says on one
  line, and it leaves no remarks waiting;
* `Layout.Tree.squeeze_renderLine`, `Layout.Tree.renderLine_says_oneLine`: so do the lines of a
  statement.
-/

namespace EventScript.Layout

namespace Pending

/-- Where nothing waits, a line is put as it is. -/
lemma line_none (t sp : Text) : none.line t sp = (sp ++ t ++ ['\n'], none) := by
  simp [line, none, linesAt]

lemma lineStart_none (t sp : Text) : none.lineStart t sp = (sp ++ t, none) := by
  simp [lineStart, none, linesAt]

lemma lineEnd_none (t : Text) : none.lineEnd t = (t ++ ['\n'], none) := by
  simp [lineEnd, none]

end Pending

/-- The steps of a page are blanks, and so is every indent. -/
lemma Page.squeeze_indentAt {p : Page} (h : Text.squeeze p.indent = []) (depth : Nat) :
    Text.squeeze (p.indentAt depth) = [] :=
  Text.squeeze_times h depth

lemma Page.indentAt_succ (p : Page) (depth : Nat) :
    p.indentAt (depth + 1) = p.indentAt depth ++ p.indent := by
  rw [indentAt, indentAt, Text.times, Text.times, List.replicate_succ', List.flatten_append,
    List.flatten_singleton]

lemma Page.squeeze_indent_ofSettings (k : Settings) :
    Text.squeeze (Page.ofSettings k).indent = [] :=
  Text.squeeze_indent _

namespace Tree

/-- A fragment without remarks has parts without remarks. -/
lemma allRemarks_node_eq_nil {opening separator closing : Text} {parts : List Tree}
    {remarks : List Remark} (h : (node opening parts separator closing remarks).allRemarks = []) :
    remarks = [] ∧ ∀ t ∈ parts, t.allRemarks = [] := by
  rw [allRemarks, List.append_eq_nil_iff, partRemarks_eq_flatMap, List.flatMap_eq_nil_iff] at h
  exact h

/-- On one line a fragment is its first part, and every other one with the separator in front. -/
lemma oneLine_cons (opening separator closing : Text) (first : Tree) (rest : List Tree)
    (remarks : List Remark) : (node opening (first :: rest) separator closing remarks).oneLine =
      opening ++ (first.oneLine ++ rest.flatMap fun t => separator ++ t.oneLine) ++ closing := by
  rw [oneLine, partTexts_eq_map, List.map_cons, Text.intercalate_cons, List.flatMap_map]

@[simp] lemma oneLine_leaf (t : Text) (remarks : List Remark) : (leaf t remarks).oneLine = t := by
  simp [leaf, oneLine, partTexts]

@[simp] lemma oneLine_behind (opening closing : Text) (t : Tree) :
    (behind opening t closing).oneLine = opening ++ t.oneLine ++ closing := by
  simp [behind, oneLine, partTexts]

@[simp] lemma allRemarks_leaf (t : Text) (remarks : List Remark) :
    (leaf t remarks).allRemarks = remarks := List.append_nil remarks

@[simp] lemma allRemarks_behind (opening closing : Text) (t : Tree) :
    (behind opening t closing).allRemarks = t.allRemarks := by
  simp [behind, allRemarks, partRemarks]

@[simp] lemma allRemarks_between (opening closing : Text) (t : Tree) :
    (between opening t closing).allRemarks = t.allRemarks := by
  simp [between, allRemarks, partRemarks]

/-- What is left of a rendered fragment without its blanks, if no remarks wait behind it. -/
abbrev Says (r : Text × Pending) (t : Text) : Prop := Text.squeeze r.1 = t ∧ r.2 = .none

section Render

variable {p : Page}

mutual

/-- **A fragment says the same broken and on one line.** -/
theorem squeeze_render (hp : Text.squeeze p.indent = []) : ∀ (t : Tree) (sp : Text)
    (column trailing : Nat), t.allRemarks = [] → Text.squeeze sp = [] →
      Says (render p sp column trailing t .none) (Text.squeeze t.oneLine)
  | node opening parts separator closing remarks, sp, column, trailing, h, hsp => by
      obtain ⟨rfl, hparts⟩ := allRemarks_node_eq_nil h
      rw [render.eq_def]
      simp only
      split
      · exact ⟨rfl, by rw [renderFlat, h, Pending.add_nil]⟩
      · match parts with
        | [] => exact ⟨rfl, by rw [renderFlat, h, Pending.add_nil]⟩
        | [only] =>
            obtain ⟨htext, hpending⟩ := squeeze_render hp only sp (column + opening.length)
              (trailing + closing.length) (hparts only List.mem_cons_self) hsp
            simp only [Pending.add_nil, oneLine_cons, List.flatMap_nil, List.append_nil]
            exact ⟨by simp only [Text.squeeze_append, htext], hpending⟩
        | first :: second :: rest =>
            obtain ⟨htext, hpending⟩ := squeeze_render hp first sp (column + opening.length) 0
              (hparts first List.mem_cons_self) hsp
            obtain ⟨hrest, hpending'⟩ := squeeze_renderRest hp (second :: rest) (sp ++ p.indent)
              (Text.trimStart separator) closing trailing (List.cons_ne_nil _ _)
              (fun t ht => hparts t (List.mem_cons_of_mem _ ht))
              (by rw [Text.squeeze_append, hsp, hp, List.append_nil])
            simp only [Pending.add_nil, hpending, Pending.lineEnd_none, oneLine_cons]
            refine ⟨?_, hpending'⟩
            simp only [Text.squeeze_append, Text.squeeze_trimEnd, htext, hrest,
              Text.squeeze_trimStart, Text.squeeze_lineEnd, Text.squeeze_flatMap, List.nil_append,
              List.append_assoc]

/-- The further parts of a broken fragment say what they say on one line. -/
theorem squeeze_renderRest (hp : Text.squeeze p.indent = []) : ∀ (ts : List Tree)
    (sp mark closing : Text) (trailing : Nat), ts ≠ [] → (∀ t ∈ ts, t.allRemarks = []) →
      Text.squeeze sp = [] → Says (renderRest p sp mark closing trailing ts .none)
        ((ts.flatMap fun t => Text.squeeze mark ++ Text.squeeze t.oneLine) ++ Text.squeeze closing)
  | [], sp, mark, closing, trailing, hne, h, hsp => absurd rfl hne
  | [last], sp, mark, closing, trailing, _, h, hsp => by
      obtain ⟨htext, hpending⟩ := squeeze_render hp last sp (sp.length + mark.length)
        (closing.length + trailing) (h last List.mem_cons_self) hsp
      simp only [renderRest, hpending, Pending.lineStart_none]
      exact ⟨by simp [htext, hsp], rfl⟩
  | middle :: next :: rest, sp, mark, closing, trailing, _, h, hsp => by
      obtain ⟨htext, hpending⟩ := squeeze_render hp middle sp (sp.length + mark.length) 0
        (h middle List.mem_cons_self) hsp
      obtain ⟨hrest, hpending'⟩ := squeeze_renderRest hp (next :: rest) sp mark closing trailing
        (List.cons_ne_nil _ _) (fun t ht => h t (List.mem_cons_of_mem _ ht)) hsp
      simp only [renderRest, hpending, Pending.line_none]
      refine ⟨?_, hpending'⟩
      rw [Text.squeeze_append, hrest, List.flatMap_cons]
      simp [htext, hsp]

end

/-- **The lines of a statement say what it says on one line.** -/
theorem squeeze_renderLine (hp : Text.squeeze p.indent = []) {sp : Text}
    (hsp : Text.squeeze sp = []) (before behind : Text) {t : Tree} (h : t.allRemarks = []) :
    Text.squeeze (renderLine p sp before behind t) =
      Text.squeeze before ++ Text.squeeze t.oneLine ++ Text.squeeze behind := by
  obtain ⟨htext, hpending⟩ := squeeze_render hp t sp (sp.length + before.length) 0 h hsp
  simp only [renderLine, hpending, Pending.line_none]
  simp [htext, hsp]

end Render

/-- **Breaking the lines of a statement changes nothing but blanks**: without them the lines say
what stands in front, the text without breaks, and what stands behind. The width by which a fragment
is broken is the length of the text without breaks. -/
theorem renderLine_says_oneLine {p : Page} (hp : Text.squeeze p.indent = []) {sp : Text}
    (hsp : Text.squeeze sp = []) (before behind : Text) {t : Tree} (h : t.allRemarks = []) :
    Text.squeeze (renderLine p sp before behind t) =
        Text.squeeze (before ++ t.oneLine ++ behind) ∧
      t.width = t.oneLine.length := by
  refine ⟨?_, (length_oneLine t).symm⟩
  rw [squeeze_renderLine hp hsp before behind h, Text.squeeze_append, Text.squeeze_append]

/-- A call with a combination in a combination, with blanks at the ends of some of its texts. -/
def nestedCall : Tree :=
  behind "Goto(L1, ".toList
    (node ['('] [leaf "one ".toList [], node [] [leaf "two".toList [], leaf [] []] "\t|| ".toList
      [' '] []] " && ".toList [')'] []) ");".toList

/-- On a narrow page it is broken at each separator, and says the same. -/
theorem renderLine_says_oneLine_nestedCall :
    renderLine ⟨8, "  ".toList⟩ [' '] "else ".toList " // end".toList nestedCall =
        " else Goto(L1,
   (one
     && two
       ||  )); // end
".toList ∧
      Text.squeeze (renderLine ⟨8, "  ".toList⟩ [' '] "else ".toList " // end".toList nestedCall) =
        Text.squeeze ("else ".toList ++ nestedCall.oneLine ++ " // end".toList) ∧
      nestedCall.width = nestedCall.oneLine.length := by
  refine ⟨by decide, ?_⟩
  exact renderLine_says_oneLine (p := ⟨8, "  ".toList⟩) (by decide) (by decide) _ _ (by decide)

end Tree

end EventScript.Layout
