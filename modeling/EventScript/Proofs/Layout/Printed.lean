import EventScript.Proofs.Layout.Fragments

/-!
The printed lines of a statement: its lines of code, and the remarks above put in between.

A remark above waits for the first line that is not broken, from the one on that its fragment begins
on. So it stands above this line, or, when the line is broken, below it.

* `Layout.printedLines`: lines of code with the remarks above put in;
* `Layout.Tree.renderLine_eq_printedLines`: the lines of a tidy statement are printed so;
* `Layout.remarksOf_printedLines`: no remark is lost and none is printed twice;
* `Layout.exists_printedLines_split`: on which side of its line a remark above stands.
-/

namespace EventScript.Layout

/-- A line of a statement as it is printed. -/
inductive PrintedLine where
  /-- A line of code, with the trailing remarks on it. Lines of code are numbered. -/
  | code (number : Nat) (line : CodeLine)
  /-- A remark above, on a fragment that begins on the line of code with a number. -/
  | remark (owner : Nat) (sp : Text) (r : Remark)

namespace PrintedLine

/-- The text of a printed line. -/
def text : PrintedLine → Text
  | code _ l => l.indent ++ l.code ++ Remark.suffix l.remarks ++ ['\n']
  | remark _ sp r => Remark.lineAt sp r.text

/-- The remark above of a line of code, if it is what is printed. -/
def remarkOf? (number : Nat) : PrintedLine → Option Remark
  | code .. => none
  | remark owner _ r => if owner = number then some r else none

end PrintedLine

namespace CodeLine

/-- The remarks above on the fragments that begin on a line. -/
def above (l : CodeLine) : List Remark := l.remarks.filter Remark.isAbove

/-- The remarks that wait when a line of code comes to be printed: those of lines in front of it,
and its own. -/
def due (waiting : List (Nat × Remark)) (number : Nat) (l : CodeLine) : List (Nat × Remark) :=
  waiting ++ l.above.map fun r => (number, r)

/-- What is printed in front of a line of code. -/
def printedAbove (waiting : List (Nat × Remark)) (number : Nat) (l : CodeLine) :
    List PrintedLine :=
  if l.isBroken then [] else (l.due waiting number).map fun w => .remark w.1 l.indent w.2

/-- The remarks that wait behind a line of code. -/
def left (waiting : List (Nat × Remark)) (number : Nat) (l : CodeLine) : List (Nat × Remark) :=
  if l.isBroken then l.due waiting number else []

end CodeLine

/-- Lines of code as they are printed, numbered from `number` on, with the remarks above, those that
wait for a line among them. -/
def printedLines (waiting : List (Nat × Remark)) (number : Nat) :
    List CodeLine → List PrintedLine
  | [] => []
  | l :: ls =>
    l.printedAbove waiting number ++
      .code number l :: printedLines (l.left waiting number) (number + 1) ls

/-- The remarks that wait behind lines of code. -/
def leftBehind (waiting : List (Nat × Remark)) (number : Nat) :
    List CodeLine → List (Nat × Remark)
  | [] => waiting
  | l :: ls => leftBehind (l.left waiting number) (number + 1) ls

/-- The remarks of one line of code among printed lines. -/
def remarksOf (number : Nat) (lines : List PrintedLine) : List Remark :=
  lines.filterMap (PrintedLine.remarkOf? number)

/-- The remarks of one line of code among those that wait. -/
def ownedBy (number : Nat) (waiting : List (Nat × Remark)) : List Remark :=
  waiting.filterMap fun w => if w.1 = number then some w.2 else none

/-! ### The text of printed lines -/

open CodeLine in
/-- What is printed below a line in progress, which takes the suffix that waits. -/
lemma below_eq_printedLines (ls : List CodeLine) :
    ∀ (pending : Pending) (waiting : List (Nat × Remark)) (number : Nat),
      pending.lines = waiting.map (fun w => w.2.text) →
        (below pending ls).1 ++ (below pending ls).2.suffix ++ ['\n'] =
          pending.suffix ++ ['\n'] ++
            (printedLines waiting number ls).flatMap PrintedLine.text := by
  induction ls with
  | nil =>
      intro pending waiting number _
      rw [below, printedLines, List.flatMap_nil, List.nil_append, List.append_nil]
  | cons l ls ih =>
      intro pending waiting number hlines
      have hdue : pending.lines ++ Remark.linesAbove l.remarks =
          (l.due waiting number).map fun w => w.2.text := by
        rw [hlines, due, List.map_append, List.map_map]
        rfl
      have hafter : (l.after ⟨pending.lines, []⟩).lines =
          (l.left waiting number).map (fun w => w.2.text) := by
        rw [after, left]
        split
        · exact hdue
        · rfl
      have hsuffix : (l.after ⟨pending.lines, []⟩).suffix = Remark.suffix l.remarks := by
        rw [after]
        split <;> rfl
      have hlead : l.lead ⟨pending.lines, []⟩ =
          (l.printedAbove waiting number).flatMap PrintedLine.text ++ l.indent := by
        rw [lead, printedAbove]
        split
        · rfl
        · rw [Pending.linesAt, Pending.add, hdue, List.map_map, List.flatMap_map, List.flatMap_def]
          rfl
      have hrest := ih _ _ (number + 1) hafter
      rw [hsuffix] at hrest
      calc (below pending (l :: ls)).1 ++ (below pending (l :: ls)).2.suffix ++ ['\n']
          = pending.suffix ++ ['\n'] ++ (l.lead ⟨pending.lines, []⟩ ++ l.code) ++
              ((below (l.after ⟨pending.lines, []⟩) ls).1 ++
                (below (l.after ⟨pending.lines, []⟩) ls).2.suffix ++ ['\n']) := by
            simp only [below, Pending.lineEnd, List.nil_append, List.append_assoc]
        _ = pending.suffix ++ ['\n'] ++ (printedLines waiting number (l :: ls)).flatMap
              PrintedLine.text := by
            rw [hrest, hlead, printedLines]
            simp only [List.flatMap_append, List.flatMap_cons, PrintedLine.text, List.append_assoc]

/-- A whole line takes the suffix that waits when it is started. -/
lemma Pending.line_eq_lineStart (pending : Pending) (t sp : Text) :
    (pending.line t sp).1 =
      (pending.lineStart t sp).1 ++ (pending.lineStart t sp).2.suffix ++ ['\n'] := by
  simp only [line, lineStart, List.append_assoc]

/-- **The lines of a tidy statement** are its lines of code, with the remarks above put in. -/
theorem Tree.renderLine_eq_printedLines {t : Tree} (h : t.isTidy = true) (p : Page)
    (sp before behind : Text) :
    t.renderLine p sp before behind =
      (printedLines [] 0 (t.statementLines p sp before behind)).flatMap PrintedLine.text := by
  let r := CodeLine.unfinished .none (t.codeLines p sp (sp.length + before.length) 0)
  have hline : t.renderLine p sp before behind =
      (r.2.lineStart (before ++ r.1 ++ behind) sp).1 ++
        (r.2.lineStart (before ++ r.1 ++ behind) sp).2.suffix ++ ['\n'] := by
    rw [Tree.renderLine, Tree.render_eq_unfinished t sp _ 0 .none h]
    exact Pending.line_eq_lineStart ..
  have hbelow := (Tree.isStretch_codeLines (p := p) t sp (sp.length + before.length)
    0).below_ended_opened .none before behind
  have hprinted := below_eq_printedLines (t.statementLines p sp before behind) .none [] 0 rfl
  -- Below an empty line, the first line of code is started like the others.
  refine (List.append_right_inj ['\n']).mp (Eq.trans ?_ hprinted)
  rw [hline, Tree.statementLines, hbelow]
  simp only [Pending.lineEnd, List.append_assoc]
  rfl

/-- **What holds of the lines of code holds of the printed lines**, if it holds of remarks above
like those on them and those that wait. -/
lemma forall_mem_printedLines {P : PrintedLine → Prop} {Q : Remark → Prop} (ls : List CodeLine)
    (hcode : ∀ l ∈ ls, ∀ number, P (.code number l))
    (habove : ∀ l ∈ ls, ∀ owner r, Q r → P (.remark owner l.indent r))
    (hown : ∀ l ∈ ls, ∀ r ∈ l.remarks, Q r) :
    ∀ (waiting : List (Nat × Remark)) (number : Nat), (∀ w ∈ waiting, Q w.2) →
      ∀ x ∈ printedLines waiting number ls, P x := by
  induction ls with
  | nil => exact fun _ _ _ _ hx => absurd hx List.not_mem_nil
  | cons l ls ih =>
      intro waiting number hwaiting
      rw [List.forall_mem_cons] at hcode habove hown
      have hdue : ∀ w ∈ l.due waiting number, Q w.2 := by
        rw [CodeLine.due, List.forall_mem_append, List.forall_mem_map]
        exact ⟨hwaiting, fun r hr => hown.1 r (List.mem_of_mem_filter hr)⟩
      rw [printedLines, List.forall_mem_append, List.forall_mem_cons]
      refine ⟨?_, hcode.1 number,
        ih hcode.2 habove.2 hown.2 (l.left waiting number) (number + 1) ?_⟩
      · rw [CodeLine.printedAbove]
        split
        · exact fun _ hx => absurd hx List.not_mem_nil
        · rw [List.forall_mem_map]
          exact fun w hw => habove.1 w.1 w.2 (hdue w hw)
      · rw [CodeLine.left]
        split
        · exact hdue
        · exact fun _ hw => absurd hw List.not_mem_nil

/-! ### The remarks of a line -/

lemma ownedBy_append (number : Nat) (ws us : List (Nat × Remark)) :
    ownedBy number (ws ++ us) = ownedBy number ws ++ ownedBy number us := List.filterMap_append

lemma remarksOf_append (number : Nat) (ks ls : List PrintedLine) :
    remarksOf number (ks ++ ls) = remarksOf number ks ++ remarksOf number ls :=
  List.filterMap_append

/-- A line is owed its own remarks, and those that waited for it already. -/
lemma ownedBy_due (i number : Nat) (waiting : List (Nat × Remark)) (l : CodeLine) :
    ownedBy i (l.due waiting number) =
      ownedBy i waiting ++ if number = i then l.above else [] := by
  have hown (rs : List Remark) :
      ownedBy i (rs.map fun r => (number, r)) = if number = i then rs else [] := by
    rw [ownedBy, List.filterMap_map]
    by_cases hi : number = i
    · simp only [Function.comp_def, hi, if_true, List.filterMap_some]
    · simp only [Function.comp_def, hi, if_false, List.filterMap_none]
  rw [CodeLine.due, ownedBy_append, hown]

/-- Above a line that is not broken, the remarks that are due are printed. -/
lemma remarksOf_printedAbove (i number : Nat) (waiting : List (Nat × Remark)) (l : CodeLine) :
    remarksOf i (l.printedAbove waiting number) =
      if l.isBroken then [] else ownedBy i (l.due waiting number) := by
  rw [CodeLine.printedAbove]
  split
  · rfl
  · exact List.filterMap_map

/-- Above a line that is broken, the remarks that are due are left for the next one. -/
lemma ownedBy_left (i number : Nat) (waiting : List (Nat × Remark)) (l : CodeLine) :
    ownedBy i (l.left waiting number) =
      if l.isBroken then ownedBy i (l.due waiting number) else [] := by
  rw [CodeLine.left]
  split <;> rfl

/-- **No remark is lost, and none is printed twice**: of a line that is not among them, lines of
code print some of the remarks that waited, and leave the others. -/
theorem remarksOf_printedLines {i : Nat} (ls : List CodeLine) :
    ∀ (waiting : List (Nat × Remark)) (number : Nat), i < number ∨ number + ls.length ≤ i →
      remarksOf i (printedLines waiting number ls) ++ ownedBy i (leftBehind waiting number ls) =
        ownedBy i waiting := by
  induction ls with
  | nil => exact fun _ _ _ => rfl
  | cons l ls ih =>
      intro waiting number hi
      rw [List.length_cons] at hi
      have hne : number ≠ i := by omega
      have hrest := ih (l.left waiting number) (number + 1) (by omega)
      have hown : remarksOf i (l.printedAbove waiting number) ++
          ownedBy i (l.left waiting number) = ownedBy i waiting := by
        rw [remarksOf_printedAbove, ownedBy_left, ownedBy_due, if_neg hne, List.append_nil]
        split
        · rfl
        · exact List.append_nil _
      rw [printedLines, leftBehind, remarksOf_append, ← hown, ← hrest, List.append_assoc]
      rfl

lemma leftBehind_append (ks ls : List CodeLine) :
    ∀ (waiting : List (Nat × Remark)) (number : Nat),
      leftBehind waiting number (ks ++ ls) =
        leftBehind (leftBehind waiting number ks) (number + ks.length) ls := by
  induction ks with
  | nil => exact fun _ _ => rfl
  | cons k ks ih =>
      intro waiting number
      rw [List.cons_append, leftBehind, ih, leftBehind, List.length_cons, Nat.add_right_comm,
        Nat.add_assoc]

lemma printedLines_append (ks ls : List CodeLine) :
    ∀ (waiting : List (Nat × Remark)) (number : Nat),
      printedLines waiting number (ks ++ ls) =
        printedLines waiting number ks ++
          printedLines (leftBehind waiting number ks) (number + ks.length) ls := by
  induction ks with
  | nil => exact fun _ _ => rfl
  | cons k ks ih =>
      intro waiting number
      rw [List.cons_append, printedLines, ih, printedLines, leftBehind, List.length_cons,
        Nat.add_right_comm, Nat.add_assoc, List.append_assoc]
      rfl

/-- Behind a line that is not broken nothing waits. -/
lemma CodeLine.EndsUnbroken.leftBehind_eq_nil {ls : List CodeLine} (h : CodeLine.EndsUnbroken ls)
    (waiting : List (Nat × Remark)) (number : Nat) : leftBehind waiting number ls = [] := by
  obtain ⟨front, l, rfl, hl⟩ := h
  rw [leftBehind_append, leftBehind, CodeLine.left, hl]
  rfl

/-- The printed lines around a line of code: its remarks are all above it, or all below. -/
lemma exists_printedLines_split {ks ls : List CodeLine} {l : CodeLine}
    (h : CodeLine.EndsUnbroken (ks ++ l :: ls)) :
    ∃ front back, printedLines [] 0 (ks ++ l :: ls) = front ++ .code ks.length l :: back ∧
      remarksOf ks.length front = (if l.isBroken then [] else l.above) ∧
      remarksOf ks.length back = if l.isBroken then l.above else [] := by
  have hfront := remarksOf_printedLines (i := ks.length) ks [] 0
    (Or.inr (Nat.le_of_eq (Nat.zero_add _)))
  obtain ⟨hbefore, hwaiting⟩ := List.append_eq_nil_iff.mp hfront
  have hdue := ownedBy_due ks.length ks.length (leftBehind [] 0 ks) l
  rw [hwaiting, if_pos rfl, List.nil_append] at hdue
  have hback := remarksOf_printedLines (i := ks.length) ls
    (l.left (leftBehind [] 0 ks) ks.length) (ks.length + 1) (Or.inl (Nat.lt_succ_self _))
  have hend := h.leftBehind_eq_nil [] 0
  rw [leftBehind_append, Nat.zero_add, leftBehind] at hend
  rw [hend, ownedBy_left, hdue] at hback
  refine ⟨printedLines [] 0 ks ++ l.printedAbove (leftBehind [] 0 ks) ks.length,
    printedLines (l.left (leftBehind [] 0 ks) ks.length) (ks.length + 1) ls, ?_, ?_, ?_⟩
  · rw [printedLines_append, Nat.zero_add, printedLines, List.append_assoc]
  · rw [remarksOf_append, hbefore, List.nil_append, remarksOf_printedAbove, hdue]
  · exact (List.append_nil _).symm.trans hback

end EventScript.Layout
