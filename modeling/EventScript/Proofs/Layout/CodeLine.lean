import EventScript.Proofs.Layout.Woven

/-!
The lines of code of a statement.

A statement is cut into lines of code, each with the fragments whose text begins on it, and broken
where one of them goes on below. Rendering follows these lines, whatever remarks wait: a line takes
those of its own fragments with those that came before.

* `Layout.CodeLine`, `Layout.Tree.codeLines`: lines of code, and those of a fragment;
* `Layout.CodeLine.unfinished`, `Layout.CodeLine.below`: what is rendered of lines, the first of
  which is in progress or goes below one in progress;
* `Layout.CodeLine.IsStretch`: the shape of the lines of one fragment;
* `Layout.Tree.render_eq_unfinished`: what is rendered of a tidy fragment is its lines.
-/

namespace EventScript.Layout

namespace Tree

/-- The remarks on a fragment itself, those on its parts left out. -/
def remarks : Tree → List Remark
  | node _ _ _ _ remarks => remarks

@[simp] lemma remarks_node (opening : Text) (parts : List Tree) (separator closing : Text)
    (rs : List Remark) : (node opening parts separator closing rs).remarks = rs := rfl

mutual

/-- The fragments in a fragment, each before its parts. -/
def fragments : Tree → List Tree
  | node opening parts separator closing remarks =>
    node opening parts separator closing remarks :: partFragments parts

/-- The fragments in the parts of a node. -/
def partFragments : List Tree → List Tree
  | [] => []
  | t :: ts => t.fragments ++ partFragments ts

end

mutual

/-- The remarks of a fragment are those on the fragments in it. -/
lemma allRemarks_eq_flatMap : ∀ t : Tree, t.allRemarks = t.fragments.flatMap remarks
  | node opening parts separator closing rs => by
      rw [allRemarks, fragments, List.flatMap_cons, partRemarks_eq parts]
      rfl

lemma partRemarks_eq : ∀ ts : List Tree, partRemarks ts = (partFragments ts).flatMap remarks
  | [] => rfl
  | t :: ts => by
      rw [partRemarks, partFragments, List.flatMap_append, allRemarks_eq_flatMap t,
        partRemarks_eq ts]

end

end Tree

/-! ### Lines of code -/

/-- A line of the code of a statement. -/
structure CodeLine where
  indent : Text
  code : Text
  /-- The fragments whose text begins on the line, each before its parts. -/
  fragments : List Tree
  /-- Whether one of them goes on below the line. -/
  isBroken : Bool

namespace CodeLine

/-- The remarks on the fragments that begin on a line. -/
def remarks (l : CodeLine) : List Remark := l.fragments.flatMap Tree.remarks

/-- Lines with a text in front of the first one, and fragments that begin with it. -/
def opened (mark : Text) (ts : List Tree) : List CodeLine → List CodeLine
  | [] => []
  | l :: ls => { l with code := mark ++ l.code, fragments := ts ++ l.fragments } :: ls

/-- Lines of one fragment, which begins on the first one and goes on below. -/
def broken : List CodeLine → List CodeLine
  | [] => []
  | l :: ls => { l with isBroken := true } :: ls

/-- Lines with a changed text on the last one. -/
def ended (f : Text → Text) : List CodeLine → List CodeLine
  | [] => []
  | [l] => [{ l with code := f l.code }]
  | l :: m :: ls => l :: ended f (m :: ls)

/-- The line of a fragment that is not broken. -/
def flat (sp : Text) (t : Tree) : CodeLine := ⟨sp, t.oneLine, t.fragments, false⟩

end CodeLine

namespace Tree

open CodeLine

mutual

/-- The lines into which a fragment is broken, as it is rendered. The first one goes on a line with
indent `sp` from a column on, and `trailing` more characters stand behind the last one. -/
def codeLines (p : Page) (sp : Text) (column trailing : Nat) : Tree → List CodeLine
  | node opening parts separator closing remarks =>
    if fits p column trailing (node opening parts separator closing remarks) then
      [.flat sp (node opening parts separator closing remarks)]
    else
      match parts with
      | [] => [.flat sp (node opening [] separator closing remarks)]
      | [only] =>
        ended (· ++ closing) (opened opening [node opening [only] separator closing remarks]
          (codeLines p sp (column + opening.length) (trailing + closing.length) only))
      | first :: second :: rest =>
        broken (ended Text.trimEnd
            (opened opening [node opening (first :: second :: rest) separator closing remarks]
              (codeLines p sp (column + opening.length) 0 first))) ++
          furtherLines p (sp ++ p.indent) (Text.trimStart separator) closing trailing
            (second :: rest)

/-- The lines of the further parts of a broken fragment. -/
def furtherLines (p : Page) (sp mark closing : Text) (trailing : Nat) :
    List Tree → List CodeLine
  | [] => []
  | [last] =>
    ended (· ++ closing) (opened mark []
      (codeLines p sp (sp.length + mark.length) (closing.length + trailing) last))
  | middle :: next :: rest =>
    opened mark [] (codeLines p sp (sp.length + mark.length) 0 middle) ++
      furtherLines p sp mark closing trailing (next :: rest)

end

/-- The lines of a statement at an indent, between a text in front on the first line and one behind
on the last. -/
def statementLines (p : Page) (sp before behind : Text) (t : Tree) : List CodeLine :=
  ended (· ++ behind) (opened before [] (codeLines p sp (sp.length + before.length) 0 t))

end Tree

/-! ### Rendering line by line -/

/-- Where no remarks above wait, a line is started with its indent. -/
lemma Pending.lineStart_of_lines_eq_nil {pending : Pending} (h : pending.lines = []) (t sp : Text) :
    pending.lineStart t sp = (sp ++ t, pending) := by
  obtain ⟨lines, suffix⟩ := pending
  obtain rfl : lines = [] := h
  rfl

/-- Ending a line puts the suffix behind it. -/
lemma Pending.lineEnd_eq (pending : Pending) (t : Text) :
    pending.lineEnd t = (t ++ (pending.lineEnd []).1, (pending.lineEnd []).2) := by
  simp [lineEnd]

/-- A whole line is started and ended. -/
lemma Pending.line_eq (pending : Pending) (t sp : Text) :
    pending.line t sp =
      ((pending.lineStart t sp).1 ++ ((pending.lineStart t sp).2.lineEnd []).1,
        ((pending.lineStart t sp).2.lineEnd []).2) := by
  simp [line, lineStart, lineEnd, none]

namespace CodeLine

/-- What stands in front of the code of a line when remarks wait: its indent, and above it the
remarks, unless it is broken. -/
def lead (l : CodeLine) (pending : Pending) : Text :=
  if l.isBroken then l.indent else (pending.add l.remarks).linesAt l.indent ++ l.indent

/-- The remarks that wait when a line is started. -/
def after (l : CodeLine) (pending : Pending) : Pending :=
  if l.isBroken then pending.add l.remarks else ⟨[], (pending.add l.remarks).suffix⟩

/-- Lines below one in progress, which is ended first. The last one is not ended. -/
def below (pending : Pending) : List CodeLine → Text × Pending
  | [] => ([], pending)
  | l :: ls =>
    let ending := pending.lineEnd []
    let rest := below (l.after ending.2) ls
    (ending.1 ++ (l.lead ending.2 ++ l.code) ++ rest.1, rest.2)

/-- Lines the first of which is in progress. Its own remarks wait. -/
def unfinished (pending : Pending) : List CodeLine → Text × Pending
  | [] => ([], pending)
  | l :: ls =>
    (l.code ++ (below (pending.add l.remarks) ls).1, (below (pending.add l.remarks) ls).2)

lemma below_append (pending : Pending) (ls ms : List CodeLine) :
    below pending (ls ++ ms) =
      ((below pending ls).1 ++ (below (below pending ls).2 ms).1,
        (below (below pending ls).2 ms).2) := by
  induction ls generalizing pending with
  | nil => rfl
  | cons l ls ih => simp only [List.cons_append, below, ih, List.append_assoc]

lemma unfinished_append (pending : Pending) {ls : List CodeLine} (h : ls ≠ [])
    (ms : List CodeLine) :
    unfinished pending (ls ++ ms) =
      ((unfinished pending ls).1 ++ (below (unfinished pending ls).2 ms).1,
        (below (unfinished pending ls).2 ms).2) := by
  cases ls with
  | nil => exact absurd rfl h
  | cons l ls => simp only [List.cons_append, unfinished, below_append, List.append_assoc]

/-- The line in progress is never checked for breaks. -/
lemma unfinished_broken (pending : Pending) (ls : List CodeLine) :
    unfinished pending (broken ls) = unfinished pending ls := by
  cases ls <;> rfl

/-- A text in front of the first line. The remarks of fragments that begin with it wait first. -/
lemma unfinished_opened (pending : Pending) (mark : Text) (ts : List Tree) {ls : List CodeLine}
    (h : ls ≠ []) :
    unfinished pending (opened mark ts ls) =
      (mark ++ (unfinished (pending.add (ts.flatMap Tree.remarks)) ls).1,
        (unfinished (pending.add (ts.flatMap Tree.remarks)) ls).2) := by
  cases ls with
  | nil => exact absurd rfl h
  | cons l ls =>
      simp only [opened, unfinished, remarks, List.flatMap_append, Pending.add_add,
        List.append_assoc]

@[simp] lemma ended_concat (f : Text → Text) (ls : List CodeLine) (l : CodeLine) :
    ended f (ls ++ [l]) = ls ++ [{ l with code := f l.code }] := by
  induction ls with
  | nil => rfl
  | cons k ls ih =>
      cases ls with
      | nil => rfl
      | cons m ls => exact congrArg (k :: ·) ih

/-- What is rendered of lines ends in the code of the last one. -/
lemma exists_below_concat (pending : Pending) (ls : List CodeLine) (l : CodeLine) :
    ∃ u, (below pending (ls ++ [l])).1 = u ++ l.code := by
  rw [below_append]
  simp only [below, List.append_nil, ← List.append_assoc]
  exact ⟨_, rfl⟩

/-- Below another line, changing the text of the last line changes the end of what is rendered. -/
lemma below_ended {f : Text → Text} {l : CodeLine}
    (hf : ∀ u, f (u ++ l.code) = u ++ f l.code) (pending : Pending) (ls : List CodeLine) :
    below pending (ended f (ls ++ [l])) =
      (f (below pending (ls ++ [l])).1, (below pending (ls ++ [l])).2) := by
  rw [ended_concat, below_append, below_append]
  simp only [below, List.append_nil, ← List.append_assoc, hf]
  rfl

/-- Changing the text of the last line changes the end of what is rendered, also if there is no
other line. -/
lemma unfinished_ended {f : Text → Text} {ls : List CodeLine} {l : CodeLine}
    (hf : ls = [] ∨ ∀ u, f (u ++ l.code) = u ++ f l.code) (pending : Pending) :
    unfinished pending (ended f (ls ++ [l])) =
      (f (unfinished pending (ls ++ [l])).1, (unfinished pending (ls ++ [l])).2) := by
  cases ls with
  | nil =>
      simp only [List.nil_append, ended, unfinished, below, List.append_nil]
      rfl
  | cons k ls =>
      have hf := hf.resolve_left (List.cons_ne_nil k ls)
      have hbelow := below_ended hf (pending.add k.remarks) ls
      obtain ⟨u, hu⟩ := exists_below_concat (pending.add k.remarks) ls l
      rw [ended_concat] at hbelow ⊢
      simp only [List.cons_append, unfinished, hbelow, hu]
      rw [hf, ← List.append_assoc, ← List.append_assoc, hf]

/-! ### The lines of one fragment -/

/-- Lines the last of which has a property. -/
def EndsIn (P : CodeLine → Prop) (ls : List CodeLine) : Prop := ∃ front l, ls = front ++ [l] ∧ P l

/-- Lines the last of which is not broken. -/
abbrev EndsUnbroken : List CodeLine → Prop := EndsIn fun l => l.isBroken = false

/-- Lines the last of which is more than blanks. -/
abbrev EndsInInk : List CodeLine → Prop := EndsIn fun l => Tree.hasInk l.code = true

/-- The lines of one fragment, from a line with an indent on: a single line that is not broken, or
a broken one and lines below it the last of which is not. -/
inductive IsStretch (sp : Text) : List CodeLine → Prop
  | flat {l : CodeLine} (hsp : l.indent = sp) (hl : l.isBroken = false) : IsStretch sp [l]
  | broken {l : CodeLine} {ls : List CodeLine} (hsp : l.indent = sp) (hl : l.isBroken = true)
      (hls : EndsUnbroken ls) : IsStretch sp (l :: ls)

variable {P Q : CodeLine → Prop} {sp : Text} {ls : List CodeLine}

lemma EndsIn.behind (h : EndsIn P ls) (ks : List CodeLine) : EndsIn P (ks ++ ls) := by
  obtain ⟨front, l, rfl, hl⟩ := h
  exact ⟨ks ++ front, l, (List.append_assoc ..).symm, hl⟩

lemma EndsIn.ended {f : Text → Text} (h : EndsIn P ls)
    (hf : ∀ l : CodeLine, P l → Q { l with code := f l.code }) :
    EndsIn Q (CodeLine.ended f ls) := by
  obtain ⟨front, l, rfl, hl⟩ := h
  exact ⟨front, _, ended_concat f front l, hf l hl⟩

lemma EndsIn.opened {mark : Text} {ts : List Tree} (h : EndsIn P ls)
    (hmark : ∀ l : CodeLine, P l →
      P { l with code := mark ++ l.code, fragments := ts ++ l.fragments }) :
    EndsIn P (CodeLine.opened mark ts ls) := by
  obtain ⟨front, l, rfl, hl⟩ := h
  cases front with
  | nil => exact ⟨[], _, rfl, hmark l hl⟩
  | cons k front => exact ⟨_ :: front, l, rfl, hl⟩

/-- Lines with a text behind are more than blanks at the end if one of the two is. -/
lemma EndsUnbroken.endsInInk {closing : Text} (hls : EndsUnbroken ls)
    (h : Tree.hasInk closing = true ∨ EndsInInk ls) (mark : Text) (ts : List Tree) :
    EndsInInk (CodeLine.ended (· ++ closing) (CodeLine.opened mark ts ls)) := by
  rcases h with h | h
  · refine (hls.opened fun _ hl => hl).ended fun l _ => ?_
    rw [Tree.hasInk_append, h, Bool.or_true]
  · refine (h.opened fun l hl => ?_).ended fun l hl => ?_
    · rw [Tree.hasInk_append, hl, Bool.or_true]
    · rw [Tree.hasInk_append, hl, Bool.true_or]

/-- Behind such lines no remarks above wait. -/
lemma EndsUnbroken.lines_below (h : EndsUnbroken ls) (pending : Pending) :
    (below pending ls).2.lines = [] := by
  obtain ⟨front, l, rfl, hl⟩ := h
  rw [below_append]
  simp only [below, after, hl, Bool.false_eq_true, if_false]

lemma IsStretch.endsUnbroken (h : IsStretch sp ls) : EndsUnbroken ls := by
  cases h with
  | flat _ hl => exact ⟨[], _, rfl, hl⟩
  | broken _ _ hls => exact hls.behind [_]

lemma IsStretch.ne_nil (h : IsStretch sp ls) : ls ≠ [] := by
  cases h <;> exact List.cons_ne_nil _ _

lemma IsStretch.opened (h : IsStretch sp ls) (mark : Text) (ts : List Tree) :
    IsStretch sp (CodeLine.opened mark ts ls) := by
  cases h with
  | flat hsp hl => exact .flat hsp hl
  | broken hsp hl hls => exact .broken hsp hl hls

lemma IsStretch.ended (h : IsStretch sp ls) (f : Text → Text) :
    IsStretch sp (CodeLine.ended f ls) := by
  cases h with
  | flat hsp hl => exact .flat hsp hl
  | broken hsp hl hls =>
      obtain ⟨front, l, rfl, hlast⟩ := hls
      rw [← List.cons_append, ended_concat]
      exact .broken hsp hl ⟨front, _, rfl, hlast⟩

lemma IsStretch.broken_ne_nil (h : IsStretch sp ls) : CodeLine.broken ls ≠ [] := by
  cases h <;> exact List.cons_ne_nil _ _

/-- A fragment goes on below its first part. -/
lemma IsStretch.broken_append (h : IsStretch sp ls) {ms : List CodeLine} (hms : EndsUnbroken ms) :
    IsStretch sp (CodeLine.broken ls ++ ms) := by
  cases h with
  | flat hsp _ => exact .broken hsp rfl hms
  | broken hsp _ _ => exact .broken hsp rfl (hms.behind _)

/-- **The lines of a fragment on a line of their own**, behind the end of the line above. -/
lemma IsStretch.below_opened (h : IsStretch sp ls) (pending : Pending) (mark : Text) :
    let r := unfinished (pending.lineEnd []).2 ls
    below pending (CodeLine.opened mark [] ls) =
      ((pending.lineEnd []).1 ++ (r.2.lineStart (mark ++ r.1) sp).1,
        (r.2.lineStart (mark ++ r.1) sp).2) := by
  cases h with
  | @flat l hsp hl =>
      simp only [CodeLine.opened, below, unfinished, lead, after, hl, hsp, remarks,
        Pending.lineStart, List.nil_append, List.append_nil, List.append_assoc, Bool.false_eq_true,
        if_false]
  | @broken l ls hsp hl hls =>
      have hlines := hls.lines_below ((pending.lineEnd []).2.add l.remarks)
      have hstart := Pending.lineStart_of_lines_eq_nil hlines
      simp only [CodeLine.opened, below, unfinished, lead, after, hl, hsp, if_true, hstart]
      simp only [remarks, List.nil_append, List.append_assoc]

/-- The lines of a fragment on a line of their own, with a text behind the last one. -/
lemma IsStretch.below_ended_opened (h : IsStretch sp ls) (pending : Pending) (mark closing : Text) :
    let r := unfinished (pending.lineEnd []).2 ls
    below pending (CodeLine.ended (· ++ closing) (CodeLine.opened mark [] ls)) =
      ((pending.lineEnd []).1 ++ (r.2.lineStart (mark ++ r.1 ++ closing) sp).1,
        (r.2.lineStart (mark ++ r.1 ++ closing) sp).2) := by
  obtain ⟨front, l, hopened, -⟩ := (h.opened mark []).endsUnbroken
  have hbelow := h.below_opened pending mark
  rw [hopened] at hbelow ⊢
  rw [below_ended (fun u => List.append_assoc u _ _), hbelow]
  simp only [Pending.lineStart, List.append_assoc]

/-- The lines of a fragment between texts that stay attached to it. -/
lemma IsStretch.unfinished_around (h : IsStretch sp ls) (pending : Pending) (mark closing : Text)
    (ts : List Tree) :
    let r := unfinished (pending.add (ts.flatMap Tree.remarks)) ls
    unfinished pending (CodeLine.ended (· ++ closing) (CodeLine.opened mark ts ls)) =
      (mark ++ r.1 ++ closing, r.2) := by
  obtain ⟨front, l, hopened, -⟩ := (h.opened mark ts).endsUnbroken
  have hunfinished := unfinished_opened pending mark ts h.ne_nil
  rw [hopened] at hunfinished ⊢
  rw [unfinished_ended (Or.inr fun u => List.append_assoc u _ _), hunfinished]

end CodeLine

namespace Tree

open CodeLine

section Render

variable {p : Page}

mutual

lemma isStretch_codeLines : ∀ (t : Tree) (sp : Text) (column trailing : Nat),
    IsStretch sp (codeLines p sp column trailing t)
  | node opening parts separator closing remarks, sp, column, trailing => by
      rw [codeLines.eq_def]
      simp only
      split
      · exact .flat rfl rfl
      · match parts with
        | [] => exact .flat rfl rfl
        | [only] => exact ((isStretch_codeLines only sp _ _).opened _ _).ended _
        | first :: second :: rest =>
            exact (((isStretch_codeLines first sp _ _).opened _ _).ended _).broken_append
              (endsUnbroken_furtherLines (second :: rest) _ _ _ _ (List.cons_ne_nil _ _))

lemma endsUnbroken_furtherLines : ∀ (ts : List Tree) (sp mark closing : Text) (trailing : Nat),
    ts ≠ [] → EndsUnbroken (furtherLines p sp mark closing trailing ts)
  | [], _, _, _, _, hne => absurd rfl hne
  | [last], sp, _, _, _, _ =>
      (((isStretch_codeLines last sp _ _).opened _ _).ended _).endsUnbroken
  | _ :: next :: rest, sp, _, _, _, _ =>
      (endsUnbroken_furtherLines (next :: rest) sp _ _ _ (List.cons_ne_nil _ _)).behind _

end

mutual

/-- The last line of an anchored fragment is more than blanks. -/
lemma endsInInk_codeLines : ∀ (t : Tree) (sp : Text) (column trailing : Nat),
    t.isAnchored = true → EndsInInk (codeLines p sp column trailing t)
  | node opening parts separator closing remarks, sp, column, trailing, h => by
      have hflat := hasInk_oneLine _ h
      rw [isAnchored, Bool.or_eq_true] at h
      rw [codeLines.eq_def]
      simp only
      split
      · exact ⟨[], _, rfl, hflat⟩
      · match parts with
        | [] => exact ⟨[], _, rfl, hflat⟩
        | [only] =>
            exact (isStretch_codeLines only sp _ _).endsUnbroken.endsInInk
              (h.imp_right (endsInInk_codeLines only sp _ _)) _ _
        | first :: second :: rest =>
            exact (endsInInk_furtherLines (second :: rest) _ _ _ _ (List.cons_ne_nil _ _)
              h).behind _

lemma endsInInk_furtherLines : ∀ (ts : List Tree) (sp mark closing : Text) (trailing : Nat),
    ts ≠ [] → (hasInk closing = true ∨ lastAnchored ts = true) →
      EndsInInk (furtherLines p sp mark closing trailing ts)
  | [], _, _, _, _, hne, _ => absurd rfl hne
  | [last], sp, _, _, _, _, h =>
      (isStretch_codeLines last sp _ _).endsUnbroken.endsInInk
        (h.imp_right (endsInInk_codeLines last sp _ _)) _ _
  | _ :: next :: rest, sp, _, _, _, _, h =>
      (endsInInk_furtherLines (next :: rest) sp _ _ _ (List.cons_ne_nil _ _) h).behind _

end

lemma unfinished_flat (sp : Text) (t : Tree) (pending : Pending) :
    unfinished pending [.flat sp t] = renderFlat t pending := by
  rw [renderFlat, allRemarks_eq_flatMap]
  exact congrArg (·, _) (List.append_nil _)

lemma codeLines_of_isLeaf {t : Tree} (h : t.isLeaf = true) (sp : Text) (column trailing : Nat) :
    codeLines p sp column trailing t = [.flat sp t] := by
  obtain ⟨opening, parts, separator, closing, remarks⟩ := t
  obtain rfl : parts = [] := List.isEmpty_iff.mp h
  rw [codeLines.eq_def]
  simp only
  split <;> rfl

/-- Trimming what is rendered of a part trims its last line. -/
lemma trimEnd_unfinished {t : Tree} (h : (t.isLeaf || t.isAnchored) = true) (pending : Pending)
    (sp : Text) (column trailing : Nat) (mark : Text) (ts : List Tree) :
    let ls := opened mark ts (codeLines p sp column trailing t)
    unfinished pending (ended Text.trimEnd ls) =
      (Text.trimEnd (unfinished pending ls).1, (unfinished pending ls).2) := by
  rw [Bool.or_eq_true] at h
  rcases h with h | h
  · rw [codeLines_of_isLeaf h]
    exact unfinished_ended (Or.inl rfl) pending
  · have hopened : EndsInInk (opened mark ts (codeLines p sp column trailing t)) := by
      refine (endsInInk_codeLines t sp column trailing h).opened fun l hl => ?_
      rw [hasInk_append, hl, Bool.or_true]
    obtain ⟨front, l, hlines, hl⟩ := hopened
    rw [hlines]
    exact unfinished_ended (Or.inr fun u => trimEnd_append hl u) pending

mutual

/-- **What is rendered of a tidy fragment is its lines**, with the remarks put in. -/
theorem render_eq_unfinished : ∀ (t : Tree) (sp : Text) (column trailing : Nat) (pending : Pending),
    t.isTidy = true → render p sp column trailing t pending =
      unfinished pending (codeLines p sp column trailing t)
  | node opening parts separator closing remarks, sp, column, trailing, pending, h => by
      rw [render.eq_def, codeLines.eq_def]
      simp only
      split
      · rw [unfinished_flat]
      · match parts with
        | [] => rw [unfinished_flat]
        | [only] =>
            simp only [isTidy, areTidy, Bool.and_true] at h
            have honly := render_eq_unfinished only sp (column + opening.length)
              (trailing + closing.length) (pending.add remarks) h
            have haround := (isStretch_codeLines (p := p) only sp (column + opening.length)
              (trailing + closing.length)).unfinished_around pending opening closing
              [node opening [only] separator closing remarks]
            simp only [haround, honly, List.flatMap_singleton, remarks_node]
        | first :: second :: rest =>
            simp only [isTidy, Bool.and_eq_true] at h
            obtain ⟨hparts, hfirst⟩ := h
            rw [areTidy, Bool.and_eq_true] at hparts
            have hhead := render_eq_unfinished first sp (column + opening.length) 0
              (pending.add remarks) hparts.1
            have hrest := renderRest_eq_below (second :: rest) (sp ++ p.indent)
              (Text.trimStart separator) closing trailing
              (render p sp (column + opening.length) 0 first (pending.add remarks)).2
              (List.cons_ne_nil _ _) hparts.2
            have hstretch := isStretch_codeLines (p := p) first sp (column + opening.length) 0
            have hopened := unfinished_opened pending opening
              [node opening (first :: second :: rest) separator closing remarks] hstretch.ne_nil
            rw [List.flatMap_singleton, remarks_node, ← hhead] at hopened
            rw [unfinished_append pending
                (((hstretch.opened opening _).ended Text.trimEnd).broken_ne_nil) _,
              unfinished_broken, trimEnd_unfinished hfirst, hopened, hrest]
            simp only [Pending.lineEnd_eq _ (Text.trimEnd _), List.append_assoc]

/-- What is rendered of the further parts of a broken fragment is their lines, behind the end of the
line above. -/
theorem renderRest_eq_below : ∀ (ts : List Tree) (sp mark closing : Text) (trailing : Nat)
    (pending : Pending), ts ≠ [] → areTidy ts = true →
      below pending (furtherLines p sp mark closing trailing ts) =
        ((pending.lineEnd []).1 ++
            (renderRest p sp mark closing trailing ts (pending.lineEnd []).2).1,
          (renderRest p sp mark closing trailing ts (pending.lineEnd []).2).2)
  | [], _, _, _, _, _, hne, _ => absurd rfl hne
  | [last], sp, mark, closing, trailing, pending, _, h => by
      rw [areTidy, areTidy, Bool.and_true] at h
      rw [furtherLines, (isStretch_codeLines last sp _ _).below_ended_opened, renderRest,
        ← render_eq_unfinished last sp _ _ _ h]
  | middle :: next :: rest, sp, mark, closing, trailing, pending, _, h => by
      rw [areTidy, Bool.and_eq_true] at h
      have hrest := renderRest_eq_below (next :: rest) sp mark closing trailing
      rw [furtherLines, below_append, (isStretch_codeLines middle sp _ _).below_opened, renderRest,
        ← render_eq_unfinished middle sp _ _ _ h.1]
      simp only [hrest _ (List.cons_ne_nil _ _) h.2, Pending.line_eq, List.append_assoc]

end

end Render

end Tree

end EventScript.Layout
