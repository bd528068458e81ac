import EventScript.Proofs.Layout.Printed
import EventScript.Proofs.Statement.Stripped
import EventScript.Proofs.Text.Lines

/-!
Where the remarks above a condition are printed.

Every condition in a statement is printed as a fragment of its layout, and begins on one line of it.
The remarks above the conditions that begin on a line stand in front of this line if all of them end
on it. When one goes on below, they all come after the line: of a broken combination, the remarks on
the first part stand between this part and the second one.

* `Statement.Prints`: a fragment that a condition is printed as;
* `Statement.remarksBesideLine`: on which side of the line the remarks of its conditions are;
* `Statement.remark_below_firstFlag`: a remark that comes below the condition it is on.
-/

namespace EventScript

open Layout (PrintedLine CodeLine printedLines remarksOf)

/-! ### The fragments of conditions -/

namespace Condition

@[simp] lemma remarks_layout (bare : Bool) (c : Condition) :
    (c.layout bare).remarks = c.remarks := by
  cases c <;> rfl

lemma layout_mem_fragments (bare : Bool) (c : Condition) :
    c.layout bare ∈ (c.layout bare).fragments := by
  cases c with
  | atom a negated remarks => exact List.mem_cons_self
  | combine op parts negated remarks => exact List.mem_cons_self

mutual

/-- A condition in another one is printed as one of its fragments. -/
lemma exists_layout_mem_fragments {d : Condition} : ∀ (bare : Bool) (c : Condition),
    d ∈ c.walk .forward → ∃ bare', d.layout bare' ∈ (c.layout bare).fragments
  | bare, atom a negated remarks, h => by
      obtain rfl := List.mem_singleton.mp h
      exact ⟨bare, layout_mem_fragments bare _⟩
  | bare, combine op parts negated remarks, h => by
      rw [walk, List.mem_append, List.mem_singleton] at h
      rcases h with h | rfl
      · obtain ⟨bare', hd⟩ := exists_layout_mem_partFragments parts h
        exact ⟨bare', List.mem_cons_of_mem _ hd⟩
      · exact ⟨bare, layout_mem_fragments bare _⟩

lemma exists_layout_mem_partFragments {d : Condition} : ∀ cs : List Condition,
    d ∈ walkAll .forward cs → ∃ bare, d.layout bare ∈ Layout.Tree.partFragments (layouts cs)
  | [], h => absurd h List.not_mem_nil
  | c :: cs, h => by
      rw [walkAll, List.mem_append] at h
      rw [layouts, Layout.Tree.partFragments]
      rcases h with h | h
      · obtain ⟨bare, hd⟩ := exists_layout_mem_fragments false c h
        exact ⟨bare, List.mem_append_left _ hd⟩
      · obtain ⟨bare, hd⟩ := exists_layout_mem_partFragments cs h
        exact ⟨bare, List.mem_append_right _ hd⟩

end

end Condition

namespace Statement

/-- A fragment of a statement that prints a condition in it: the layout of the condition, or, for
the sentinel, that of the whole call, which keeps its remarks. -/
structure Prints (s : Statement) (d : Condition) (u : Layout.Tree) : Prop where
  mem_fragments : u ∈ s.layout.fragments
  remarks : u.remarks = d.remarks
  eq_layout : (∃ bare, u = d.layout bare) ∨ (d.isAlways = true ∧ u = s.layout)

variable {s : Statement} {c d : Condition}

/-- A statement that has the layout of a condition within prints the conditions in it. -/
lemma exists_prints_of_subset (hc : (c.layout true).fragments ⊆ s.layout.fragments)
    (hd : d ∈ c.walk .forward) : ∃ u, s.Prints d u := by
  obtain ⟨bare, hmem⟩ := Condition.exists_layout_mem_fragments true c hd
  exact ⟨_, hc hmem, d.remarks_layout bare, Or.inl ⟨bare, rfl⟩⟩

lemma exists_prints_between (opening closing : Text) (hd : d ∈ c.walk .forward)
    (hs : s.layout = .between opening (c.layout true) closing) : ∃ u, s.Prints d u := by
  refine exists_prints_of_subset (c := c) ?_ hd
  rw [hs, Layout.Tree.between, Layout.Tree.fragments, Layout.Tree.partFragments,
    Layout.Tree.partFragments, List.append_nil]
  exact List.subset_cons_self _ _

lemma exists_prints_behind (opening closing : Text) (hd : d ∈ c.walk .forward)
    (hs : s.layout = .behind opening (c.layout true) closing) : ∃ u, s.Prints d u := by
  refine exists_prints_of_subset (c := c) ?_ hd
  rw [hs, Layout.Tree.behind, Layout.Tree.fragments, Layout.Tree.partFragments,
    Layout.Tree.partFragments, Layout.Tree.partFragments, List.append_nil]
  exact List.Subset.trans (List.subset_append_right _ _) (List.subset_cons_self _ _)

lemma exists_prints_callLayout (text opening : Text) (hd : d ∈ c.walk .forward)
    (hs : s.layout = c.callLayout text opening) : ∃ u, s.Prints d u := by
  by_cases halways : c.isAlways = true
  · rw [Condition.callLayout, if_pos halways] at hs
    obtain ⟨a, negated, remarks⟩ | _ := c
    · obtain rfl := List.mem_singleton.mp hd
      refine ⟨s.layout, ?_, ?_, Or.inr ⟨halways, rfl⟩⟩
      · rw [hs]
        exact List.mem_cons_self
      · rw [hs]
        rfl
    · cases halways
  · rw [Condition.callLayout, if_neg halways] at hs
    exact exists_prints_behind _ _ hd hs

/-- **Every condition in a statement is printed.** -/
lemma exists_prints (hc : s.condition? = some c) (hd : d ∈ c.walk .forward) :
    ∃ u, s.Prints d u := by
  cases s with
  | simple tags a =>
      cases a with
      | finish ending c' =>
          obtain rfl := Option.some.inj hc
          exact exists_prints_callLayout _ _ hd (Action.layout_finish ending c')
      | assign group variableName op c' =>
          obtain rfl := Option.some.inj hc
          exact exists_prints_between _ _ hd rfl
      | jump target c' =>
          obtain rfl := Option.some.inj hc
          exact exists_prints_callLayout _ _ hd (Action.layout_jump target c')
      | wait c' isSpecial =>
          obtain rfl := Option.some.inj hc
          exact exists_prints_behind _ _ hd rfl
      | _ => cases hc
  | loop tags code body => cases hc
  | choice tags c' yes no =>
      obtain rfl := Option.some.inj hc
      exact exists_prints_between _ _ hd rfl

/-! ### The remarks beside a line -/

/-- **On which side of a line the remarks above are.** The conditions in a statement are printed as
fragments of its layout, and the lines of the statement hold these fragments in order. Of each line,
the remarks above on the conditions that begin on it are all in front of it, in order, if none of
these conditions goes on below it, and all behind it otherwise. -/
theorem remarksBesideLine (hc : s.condition? = some c) (p : Layout.Page) (sp before behind : Text) :
    let lines := s.layout.statementLines p sp before behind
    s.layout.renderLine p sp before behind = (printedLines [] 0 lines).flatMap PrintedLine.text ∧
      lines.flatMap CodeLine.fragments = s.layout.fragments ∧
      (∀ d ∈ c.walk .forward, ∃ u, s.Prints d u) ∧
      ∀ ks l ls, lines = ks ++ l :: ls → l.IsSound ∧
        ∃ front back, printedLines [] 0 lines = front ++ .code ks.length l :: back ∧
          remarksOf ks.length front = (if l.isBroken then [] else l.above) ∧
          remarksOf ks.length back = if l.isBroken then l.above else [] := by
  intro lines
  refine ⟨Layout.Tree.renderLine_eq_printedLines s.isTidy_layout p sp before behind,
    s.layout.flatMap_fragments_statementLines p sp before behind,
    fun d hd => exists_prints hc hd, ?_⟩
  intro ks l ls hlines
  have hsound := s.layout.isSound_statementLines p sp before behind l
  have hend := (s.layout.isStretch_statementLines p sp before behind).endsUnbroken
  rw [show s.layout.statementLines p sp before behind = ks ++ l :: ls from hlines] at hsound hend
  rw [hlines]
  exact ⟨hsound (List.mem_append_right _ List.mem_cons_self),
    Layout.exists_printedLines_split hend⟩

/-- A test of a flag with a remark above. -/
def firstFlag : Condition :=
  .atom (.query ⟨"EventFlag".toList, [.int 1]⟩) false [.ofComment .above "// first".toList]

/-- A test of this flag and of another one. -/
def bothFlags : Condition :=
  .combine .all [firstFlag, .atom (.query ⟨"EventFlag".toList, [.int 2]⟩) false []] false []

/-- A choice between nothing and nothing on both flags. -/
def flagChoice : Statement := .choice {} bothFlags [] []

/-- On one line, the remark stands above the choice. -/
theorem remarksBesideLine_flagChoice :
    flagChoice.condition? = some bothFlags ∧
      ∃ front back, printedLines [] 0 [.flat "  ".toList flagChoice.layout] =
          front ++ .code 0 (.flat "  ".toList flagChoice.layout) :: back ∧
        remarksOf 0 front = [.ofComment .above "// first".toList] ∧ remarksOf 0 back = [] := by
  have hcondition : flagChoice.condition? = some bothFlags := rfl
  obtain ⟨-, -, -, hlines⟩ :=
    remarksBesideLine hcondition ⟨100, "    ".toList⟩ "  ".toList [] []
  obtain ⟨-, front, back, hsplit, hfront, hback⟩ :=
    hlines [] (.flat "  ".toList flagChoice.layout) [] rfl
  exact ⟨hcondition, front, back, hsplit, hfront, hback⟩

/-- When the combination is broken, the remark comes below the flag that it is on. -/
theorem remark_below_firstFlag :
    firstFlag ∈ bothFlags.walk .forward ∧
      firstFlag.remarks = [.ofComment .above "// first".toList] ∧
      flagChoice.layout.renderLine ⟨20, "    ".toList⟩ "    ".toList [] [] =
        "    if (EventFlag(1)
        // first
        && EventFlag(2))".toList ++ Text.blockOpen ++ ['\n'] :=
  ⟨List.mem_cons_self, rfl, by decide⟩

end Statement

end EventScript
