import EventScript.Proofs.Listing.Written
import EventScript.Proofs.Statement.Stripped
import EventScript.Proofs.Text.Lines

/-!
The remarks of an event are woven into its lines, each once.

* `Layout.Page.IsIndent`: the indents of a page;
* `Listing.Weaves`, `Listing.Woven`: pieces without remarks and with them, in the order of the
  remarks and in any order;
* `Listing.woven_statementPieces`, `Listing.woven_bodyPieces`: the lines of statements and bodies;
* `Listing.weave_ofEvent`: the listing of an event;
* `Settings.format_eq_lines`: a formatted event line by line. Remarks on lines of their own and at
  the ends of lines are all that is put in.
-/

namespace EventScript

namespace Remark

/-- The remarks that stay with a statement and those that stay on its line are all of them. -/
lemma filter_perm (rs : List Remark) : (rs.filter isAbove ++ rs.filter isTrailing).Perm rs :=
  List.filter_append_perm isAbove rs

lemma filter_isTrailing_eq_nil {rs : List Remark} (h : ∀ r ∈ rs, r.kind ≠ .trailing) :
    rs.filter isTrailing = [] := by
  rw [List.filter_eq_nil_iff]
  intro r hr htrailing
  have hkind := h r hr
  rw [isTrailing, isAbove] at htrailing
  cases hk : r.kind with
  | trailing => exact hkind hk
  | above => simp [hk] at htrailing
  | blank => simp [hk] at htrailing

/-- Remarks among others may be taken to the front. -/
lemma perm_shift (ws xs rs ys : List Remark) :
    (ws ++ (xs ++ rs ++ ys)).Perm (rs ++ (ws ++ (xs ++ ys))) := by
  rw [List.perm_iff_count]
  intro r
  simp only [List.count_append]
  omega

end Remark

/-! ### Indents -/

namespace Layout

namespace Page

/-- A text that is an indent of the page. -/
def IsIndent (p : Page) (sp : Text) : Prop := ∃ depth, sp = p.indentAt depth

lemma isIndent_indentAt (p : Page) (depth : Nat) : p.IsIndent (p.indentAt depth) := ⟨depth, rfl⟩

lemma isIndent_indent (p : Page) : p.IsIndent p.indent :=
  ⟨1, by rw [indentAt, Text.times, List.replicate_one, List.flatten_singleton]⟩

/-- A further step makes an indent of an indent. -/
lemma IsIndent.append_indent {p : Page} {sp : Text} (h : p.IsIndent sp) :
    p.IsIndent (sp ++ p.indent) := by
  obtain ⟨depth, rfl⟩ := h
  exact ⟨depth + 1, (p.indentAt_succ depth).symm⟩

lemma IsIndent.notMem {k : Settings} {sp : Text} (h : (ofSettings k).IsIndent sp) : '\n' ∉ sp := by
  obtain ⟨depth, rfl⟩ := h
  rw [indentAt, Text.times, List.mem_flatten]
  rintro ⟨t, ht, hmem⟩
  rw [List.eq_of_mem_replicate ht] at hmem
  cases List.eq_of_mem_replicate hmem

end Page

/-- A line of code. -/
lemma Weave.line (indents : Text → Prop) (t : Text) :
    Weave indents .start (t ++ ['\n']) (t ++ ['\n']) [] .start := by
  obtain ⟨b, -, h⟩ := Runs.code indents Place.start_ne_closed t
  exact h.append (newline b)

end Layout

/-! ### Pieces -/

namespace Listing

open Layout

/-- Pieces without remarks, the same pieces with them, and the remarks that were put in, in the
order in which they stand. A declared label has them behind it, and a piece of its own is one
above. -/
inductive Weaves (indents : Text → Prop) : List Piece → List Piece → List Remark → Prop
  | nil : Weaves indents [] [] []
  | run {source : Option LineMap} {plain text : Text} {pieces pieces' : List Piece}
      {rs rs' : List Remark} (ht : Weave indents .start plain text rs .start)
      (h : Weaves indents pieces pieces' rs') :
      Weaves indents (.run source plain :: pieces) (.run source text :: pieces') (rs ++ rs')
  | label {name : Text} {pieces pieces' : List Piece} {bs rs : List Remark}
      (h : Weaves indents pieces pieces' rs) :
      Weaves indents (.label name [] :: pieces) (.label name (Remark.suffix bs) :: pieces')
        (bs.filter Remark.isTrailing ++ rs)
  | above {sp : Text} {r : Remark} {pieces pieces' : List Piece} {rs : List Remark}
      (hsp : indents sp) (hr : r.isAbove = true) (h : Weaves indents pieces pieces' rs) :
      Weaves indents pieces (.plain (Remark.lineAt sp r.text) :: pieces') (r :: rs)

namespace Weaves

variable {indents : Text → Prop} {pieces pieces' more more' : List Piece} {rs rs' : List Remark}

lemma append (h : Weaves indents pieces pieces' rs) (h' : Weaves indents more more' rs') :
    Weaves indents (pieces ++ more) (pieces' ++ more') (rs ++ rs') := by
  induction h with
  | nil => exact h'
  | run ht _ ih =>
      rw [List.append_assoc]
      exact run ht ih
  | label _ ih =>
      rw [List.append_assoc]
      exact label ih
  | above hsp hr _ ih => exact above hsp hr ih

/-- Repeated labels are told apart in the same way with remarks and without. -/
lemma tellApart (h : Weaves indents pieces pieces' rs) (used : List Text) :
    Weaves indents (Listing.tellApart used pieces) (Listing.tellApart used pieces') rs := by
  induction h generalizing used with
  | nil => exact nil
  | run ht _ ih => exact run ht (ih used)
  | label _ ih => exact label (ih _)
  | above hsp hr _ ih => exact above hsp hr (ih used)

/-- The texts of such pieces. -/
lemma weave_text (h : Weaves indents pieces pieces' rs) :
    Weave indents .start (pieces.flatMap Piece.text) (pieces'.flatMap Piece.text) rs .start := by
  induction h with
  | nil => exact .nil .start
  | run ht _ ih => exact ht.append ih
  | @label name pieces pieces' bs rs _ ih =>
      have hname := Runs.code indents Place.start_ne_closed (name ++ [':'])
      have happend := (hname.lineEnd bs).append ih
      simpa [Piece.text, Remark.suffix] using happend
  | above hsp hr _ ih => exact .above hsp hr ih

end Weaves

/-- Pieces without remarks and the same pieces with all of some remarks put in, each once. -/
def Woven (indents : Text → Prop) (pieces pieces' : List Piece) (all : List Remark) : Prop :=
  ∃ rs, Weaves indents pieces pieces' rs ∧ rs.Perm all

namespace Woven

variable {indents : Text → Prop} {pieces pieces' more more' : List Piece} {all all' : List Remark}

lemma append (h : Woven indents pieces pieces' all) (h' : Woven indents more more' all') :
    Woven indents (pieces ++ more) (pieces' ++ more') (all ++ all') := by
  obtain ⟨rs, hw, hperm⟩ := h
  obtain ⟨rs', hw', hperm'⟩ := h'
  exact ⟨rs ++ rs', hw.append hw', hperm.append hperm'⟩

lemma perm (h : Woven indents pieces pieces' all) (hall : all.Perm all') :
    Woven indents pieces pieces' all' := by
  obtain ⟨rs, hw, hperm⟩ := h
  exact ⟨rs, hw, hperm.trans hall⟩

lemma nil : Woven indents [] [] [] := ⟨[], .nil, .refl _⟩

lemma run {source : Option LineMap} {plain text : Text} {rs : List Remark}
    (h : Weave indents .start plain text rs .start) :
    Woven indents [.run source plain] [.run source text] rs :=
  ⟨rs ++ [], .run h .nil, by rw [List.append_nil]⟩

lemma label (name : Text) (bs : List Remark) :
    Woven indents [.label name []] [.label name (Remark.suffix bs)]
      (bs.filter Remark.isTrailing) :=
  ⟨bs.filter Remark.isTrailing ++ [], .label .nil, by rw [List.append_nil]⟩

/-- Lines without remarks. -/
lemma lines {t : Text} (h : t.getLast? = some '\n') (front : Text) :
    Woven indents [.plain (front ++ t)] [.plain (front ++ t)] [] := by
  obtain ⟨middle, rfl⟩ := List.getLast?_eq_some_iff.mp h
  rw [← List.append_assoc]
  exact run (Weave.line indents (front ++ middle))

lemma closing (sp : Text) :
    Woven indents [Listing.closing sp] [Listing.closing sp] [] := lines rfl sp

lemma dividing (sp : Text) :
    Woven indents [Listing.dividing sp] [Listing.dividing sp] [] := lines rfl sp

/-- Lines of remarks. -/
lemma remarkLines {sp : Text} (hsp : indents sp) (rs : List Remark) :
    Woven indents [] (Listing.remarkLines sp rs) (rs.filter Remark.isAbove) := by
  refine ⟨_, ?_, .refl _⟩
  induction rs with
  | nil => exact .nil
  | cons r rs ih =>
      by_cases hr : r.isAbove = true
      · rw [Listing.remarkLines, Remark.linesAbove, List.filter_cons_of_pos hr]
        exact .above hsp hr ih
      · rw [Listing.remarkLines, Remark.linesAbove, List.filter_cons_of_neg hr]
        exact ih

/-- Labels in front of a statement. -/
lemma labels (names : List Text) :
    Woven indents (names.map fun name => .label name []) (names.map fun name => .label name [])
      [] := by
  induction names with
  | nil => exact nil
  | cons name names ih => exact (label name []).append ih

end Woven

/-! ### Statements -/

section

variable {p : Page}

/-- What stands in front of a statement. -/
lemma woven_leadPieces (depth : Nat) (tags : Tags) :
    Woven p.IsIndent (leadPieces (p.indentAt depth) { tags with remarks := [] })
      (leadPieces (p.indentAt depth) tags) (tags.remarks.filter Remark.isAbove) := by
  have hlead := (Woven.remarkLines (p.isIndent_indentAt depth) tags.remarks).append
    (Woven.labels tags.labels)
  rwa [List.append_nil] at hlead

/-- The lines of a statement hold the trailing remarks on the statement and all of its layout. -/
lemma woven_headPiece (depth : Nat) (before : Text) (s : Statement) :
    Woven p.IsIndent [headPiece p (p.indentAt depth) before s.stripped]
      [headPiece p (p.indentAt depth) before s]
      (s.tags.remarks.filter Remark.isTrailing ++ s.layout.allRemarks) := by
  obtain ⟨new, xs, ys, hw, habove, htrailing, hall⟩ := Tree.weave_renderLine
    (fun _ h => h.append_indent) s.isTidy_layout (p.isIndent_indentAt depth) before []
    s.tags.remarks
  rw [headPiece, headPiece, Statement.layout_stripped, Statement.tags_stripped]
  refine (Woven.run hw).perm ?_
  have hnew := (Remark.filter_perm new).symm
  have hlayout := Remark.filter_perm s.layout.allRemarks
  rw [habove, htrailing] at hnew
  rw [← hall] at hlayout
  exact hnew.trans ((Remark.perm_shift _ _ _ _).trans (hlayout.append_left _))

lemma actionPieces_noOp (depth : Nat) (before : Text) (afterLabel isLast : Bool) (tags : Tags) :
    actionPieces p depth before afterLabel isLast tags .noOp =
      if isLeftOut tags afterLabel then [.run tags.lines []]
      else [headPiece p (p.indentAt depth) before (.simple tags .noOp)] := rfl

lemma actionPieces_label (depth : Nat) (before : Text) (afterLabel isLast : Bool) (tags : Tags)
    (number : Nat) : actionPieces p depth before afterLabel isLast tags (.label number) =
      [.run tags.lines []] ++ [.label (Label.name number) (Remark.suffix tags.remarks)] ++
        if isLast then [.plain (p.indentAt depth ++ "NoOp();\n".toList)] else [] := rfl

/-- The lines of an action. -/
lemma woven_actionPieces (depth : Nat) (before : Text) (afterLabel isLast : Bool) (tags : Tags)
    (a : Action) (h : (Statement.simple tags a).isNoOp = true →
      tags.remarks.filter Remark.isTrailing = []) :
    Woven p.IsIndent
      (actionPieces p depth before afterLabel isLast { tags with remarks := [] }
        (a.mapCondition Condition.stripped))
      (actionPieces p depth before afterLabel isLast tags a)
      (tags.remarks.filter Remark.isTrailing ++ a.layout.allRemarks) := by
  cases a with
  | noOp =>
      have hsuffix : Remark.suffix tags.remarks = [] := by rw [Remark.suffix, h rfl]; rfl
      have hleft :
          isLeftOut { tags with remarks := [] } afterLabel = isLeftOut tags afterLabel := by
        rw [isLeftOut, isLeftOut, hsuffix]
        rfl
      have hmap : Action.noOp.mapCondition Condition.stripped = .noOp := rfl
      rw [hmap, actionPieces_noOp, actionPieces_noOp, hleft]
      split
      · rw [h rfl]
        exact Woven.run (.nil .start)
      · exact woven_headPiece depth before (.simple tags .noOp)
  | label number =>
      have hstart : Woven p.IsIndent [.run tags.lines []] [.run tags.lines []] [] :=
        Woven.run (.nil .start)
      have hlabel := hstart.append (Woven.label (Label.name number) tags.remarks)
      have hlast : Woven p.IsIndent
          (if isLast then [.plain (p.indentAt depth ++ "NoOp();\n".toList)] else [])
          (if isLast then [.plain (p.indentAt depth ++ "NoOp();\n".toList)] else []) [] := by
        split
        · exact Woven.lines rfl _
        · exact Woven.nil
      have hmap : (Action.label number).mapCondition Condition.stripped = .label number := rfl
      rw [hmap, actionPieces_label, actionPieces_label]
      exact hlabel.append hlast
  | _ => exact woven_headPiece depth before (.simple tags _)

/-- The remarks of a statement that are put above it and those on its lines are its own. -/
lemma ownRemarks_perm_lead_head (s : Statement) :
    (s.tags.remarks.filter Remark.isAbove ++
      (s.tags.remarks.filter Remark.isTrailing ++ s.layout.allRemarks)).Perm s.ownRemarks := by
  rw [← List.append_assoc]
  exact ((Remark.filter_perm _).append_right _).trans s.ownRemarks_perm.symm

/-- The lines of a block: what stands in front of it, its head, and what follows. -/
lemma woven_block (depth : Nat) (before : Text) (s : Statement) {pieces pieces' : List Piece}
    {all : List Remark} (h : Woven p.IsIndent pieces pieces' all) :
    Woven p.IsIndent
      (leadPieces (p.indentAt depth) { s.tags with remarks := [] } ++
        headPiece p (p.indentAt depth) before s.stripped :: pieces)
      (leadPieces (p.indentAt depth) s.tags ++
        headPiece p (p.indentAt depth) before s :: pieces') (all ++ s.ownRemarks) := by
  have hhead := (woven_leadPieces (p := p) depth s.tags).append (woven_headPiece depth before s)
  have hblock := (hhead.perm (ownRemarks_perm_lead_head s)).append h
  simpa only [List.append_assoc, List.singleton_append] using hblock.perm List.perm_append_comm

/-- What follows the first branch of a choice: the second one, or the end of the block. A second one
that is a choice alone goes on in the same line. -/
def elsePieces (p : Page) (depth : Nat) (no : Body) : List Piece :=
  match no with
  | [] => [closing (p.indentAt depth)]
  | s :: rest =>
    if rest.isEmpty && s.isChoice && s.tags.labels.isEmpty then
      bodyPieces p depth Text.blockElse false (s :: rest)
    else
      dividing (p.indentAt depth) ::
        (bodyPieces p (depth + 1) [] false (s :: rest) ++ [closing (p.indentAt depth)])

lemma statementPieces_choice (depth : Nat) (before : Text) (afterLabel isLast : Bool) (tags : Tags)
    (c : Condition) (yes no : Body) :
    statementPieces p depth before afterLabel isLast (.choice tags c yes no) =
      leadPieces (p.indentAt depth) tags ++
        headPiece p (p.indentAt depth) before (.choice tags c yes no) ::
          (bodyPieces p (depth + 1) [] false yes ++ elsePieces p depth no) := by
  rw [statementPieces.eq_def]
  cases no <;> rfl

lemma woven_elsePieces (depth : Nat) (no : Body)
    (hno : Woven p.IsIndent (bodyPieces p (depth + 1) [] false (Body.stripped no))
      (bodyPieces p (depth + 1) [] false no) (Body.allRemarks no))
    (helse : Woven p.IsIndent (bodyPieces p depth Text.blockElse false (Body.stripped no))
      (bodyPieces p depth Text.blockElse false no) (Body.allRemarks no)) :
    Woven p.IsIndent (elsePieces p depth (Body.stripped no)) (elsePieces p depth no)
      (Body.allRemarks no) := by
  cases no with
  | nil => exact Woven.closing _
  | cons s rest =>
      rw [Body.stripped] at hno helse ⊢
      rw [elsePieces, elsePieces, Body.stripped_isEmpty, Statement.isChoice_stripped,
        Statement.tags_stripped]
      split
      · exact helse
      · have hblock := (Woven.dividing (p.indentAt depth)).append
          (hno.append (Woven.closing (p.indentAt depth)))
        rwa [List.append_nil] at hblock

/-- Whether no statement of a list that does nothing has a remark on its line. With such a remark it
is not left out, and so the remark would add to the code. -/
def NoOpsAreBare (statements : List Statement) : Prop :=
  ∀ s ∈ statements, s.isNoOp = true → ∀ r ∈ s.tags.remarks, r.kind ≠ .trailing

mutual

/-- **The lines of a statement** with its remarks are those without them and the remarks woven
in. -/
theorem woven_statementPieces : ∀ (s : Statement) (depth : Nat) (before : Text)
    (afterLabel isLast : Bool), NoOpsAreBare s.walk →
      Woven p.IsIndent (statementPieces p depth before afterLabel isLast s.stripped)
        (statementPieces p depth before afterLabel isLast s) s.allRemarks
  | .simple tags a, depth, before, afterLabel, isLast, h => by
      have haction := woven_actionPieces (p := p) depth before afterLabel isLast tags a fun hnoOp =>
        Remark.filter_isTrailing_eq_nil (h _ (List.mem_singleton_self _) hnoOp)
      rw [Statement.stripped, statementPieces, statementPieces, Statement.allRemarks_simple]
      exact ((woven_leadPieces depth tags).append haction).perm
        (ownRemarks_perm_lead_head (.simple tags a))
  | .loop tags code body, depth, before, afterLabel, isLast, h => by
      have hbody := woven_bodyPieces body (depth + 1) [] false fun s hs =>
        h s (List.mem_append_left _ hs)
      have hrest := hbody.append (Woven.closing (p.indentAt depth))
      rw [List.append_nil] at hrest
      rw [Statement.allRemarks_loop, Statement.stripped, statementPieces, statementPieces]
      exact woven_block depth before (.loop tags code body) hrest
  | .choice tags c yes no, depth, before, afterLabel, isLast, h => by
      have hyes := woven_bodyPieces yes (depth + 1) [] false fun s hs =>
        h s (List.mem_append_left _ (List.mem_append_left _ hs))
      have hbare : NoOpsAreBare (Body.walk no) := fun s hs =>
        h s (List.mem_append_left _ (List.mem_append_right _ hs))
      have hno := woven_bodyPieces no (depth + 1) [] false hbare
      have helse := woven_bodyPieces no depth Text.blockElse false hbare
      rw [Statement.allRemarks_choice, Statement.stripped, statementPieces_choice,
        statementPieces_choice]
      exact woven_block depth before (.choice tags c yes no)
        (hyes.append (woven_elsePieces depth no hno helse))

/-- **The lines of a body.** -/
theorem woven_bodyPieces : ∀ (body : List Statement) (depth : Nat) (before : Text)
    (afterLabel : Bool), NoOpsAreBare (Body.walk body) →
      Woven p.IsIndent (bodyPieces p depth before afterLabel (Body.stripped body))
        (bodyPieces p depth before afterLabel body) (Body.allRemarks body)
  | [], depth, before, afterLabel, h => .nil
  | s :: rest, depth, before, afterLabel, h => by
      rw [Body.walk, NoOpsAreBare, List.forall_mem_append] at h
      rw [Body.stripped, bodyPieces, bodyPieces, Statement.isLabel_stripped,
        Body.stripped_isEmpty]
      exact (woven_statementPieces s depth before afterLabel rest.isEmpty h.1).append
        (woven_bodyPieces rest depth [] s.isLabel h.2)

end

/-! ### Events -/

/-- The end of the declaration of an event. -/
lemma woven_closingPieces (e : Event) :
    Woven p.IsIndent (closingPieces p e.stripped) (closingPieces p e) e.closingRemarks := by
  have hcode := Runs.code p.IsIndent Place.start_ne_closed Event.closingMark
  have hline : Woven p.IsIndent
      [.plain (Event.closingMark ++ Remark.suffix e.stripped.closingRemarks ++ ['\n'])]
      [.plain (Event.closingMark ++ Remark.suffix e.closingRemarks ++ ['\n'])]
      (e.closingRemarks.filter Remark.isTrailing) := by
    rw [Event.stripped, Remark.suffix_nil, List.append_nil]
    exact Woven.run (hcode.lineEnd e.closingRemarks)
  have hclosing := (Woven.remarkLines p.isIndent_indent e.closingRemarks).append hline
  exact hclosing.perm (Remark.filter_perm e.closingRemarks)

/-- The declaration of an event. -/
lemma woven_declarationPieces (e : Event) (h : NoOpsAreBare (Body.walk e.body)) :
    Woven p.IsIndent (declarationPieces p e.stripped) (declarationPieces p e) e.allRemarks := by
  have hopening : Woven p.IsIndent [.plain (openingLine e.stripped)] [.plain (openingLine e)] [] :=
    Woven.lines rfl _
  exact hopening.append ((woven_bodyPieces e.body 1 [] false h).append (woven_closingPieces e))

lemma getLast?_headerText (header : Text) : (headerText header).getLast? = some '\n' := by
  rw [headerText]
  split
  · assumption
  · rw [List.getLast?_concat]

/-- The header of an event. -/
lemma weave_headerSection (e : Event) :
    Weave p.IsIndent .start (Listing.text (headerSection e.stripped))
      (Listing.text (headerSection e)) [] .start := by
  have hstripped : headerSection e.stripped = headerSection e := rfl
  rw [hstripped, headerSection]
  cases e.header with
  | none => exact .nil .start
  | some header =>
      obtain ⟨front, hfront⟩ := List.getLast?_eq_some_iff.mp (getLast?_headerText header)
      have hline := Weave.line p.IsIndent front
      simpa [Listing.text, Section.text, Piece.plain, Piece.text, hfront] using hline

end

/-- **The listing of an event** with its remarks is that without them and the remarks woven in, each
once. -/
theorem weave_ofEvent (k : Settings) (e : Event) (h : NoOpsAreBare (Body.walk e.body)) :
    ∃ rs, Weave (Page.ofSettings k).IsIndent .start (Listing.ofEvent k e.stripped).text
      (Listing.ofEvent k e).text rs .start ∧ rs.Perm e.allRemarks := by
  obtain ⟨rs, hw, hperm⟩ := woven_declarationPieces (p := .ofSettings k) e h
  refine ⟨[] ++ rs, ?_, hperm⟩
  rw [ofEvent, ofEvent, text_append, text_append]
  refine (weave_headerSection e).append ?_
  rw [Event.id_stripped]
  split
  · simpa [Listing.text, Section.text] using (hw.tellApart []).weave_text
  · simpa [Listing.text, Section.text] using hw.weave_text

end Listing

namespace Settings

open Layout

/-- **A formatted event line by line.** With its remarks and without them an event is formatted to
the same lines of code. Of the remarks each one is put in once: those above their owner on lines of
their own, and the trailing ones at the ends of lines, where no code comes behind them. -/
theorem format_eq_lines (k : Settings) {e : Event} {f : Formatted}
    (hcomments : ∀ r ∈ e.allRemarks, '\n' ∉ r.comment)
    (hnoOps : Listing.NoOpsAreBare (Body.walk e.body)) (h : k.format [e] = .ok f) :
    ∃ (g : Formatted) (lines : List WovenLine), k.format [e.stripped] = .ok g ∧
      (∀ l ∈ lines, l.IsWoven (Page.ofSettings k).IsIndent ∧
        ∃ t, '\n' ∉ t ∧ l.text = t ++ ['\n']) ∧
      g.text = lines.flatMap WovenLine.plain ∧ f.text = lines.flatMap WovenLine.text ∧
        (lines.flatMap WovenLine.remarks).Perm e.allRemarks := by
  obtain ⟨haccepted, hf⟩ := k.refusal?_of_format h
  have hstripped : k.refusal? e.stripped = none := by
    rwa [refusal?, Event.referenceFault?_stripped]
  obtain ⟨maps, hg⟩ := k.format_of_accepted hstripped
  obtain ⟨rs, hw, hperm⟩ := Listing.weave_ofEvent k e hnoOps
  obtain ⟨lines, hlines⟩ := hw.exists_lines
  rw [hlines.remarks] at hperm
  refine ⟨_, lines, hg, fun l hl => ⟨hlines.woven l hl, ?_⟩, hlines.plain, hf.trans hlines.text,
    hperm⟩
  refine WovenLine.exists_line (hlines.woven l hl) (fun _ hsp => hsp.notMem) fun r hr => ?_
  exact hcomments r (hperm.mem_iff.mp (List.mem_flatMap.mpr ⟨l, hl, hr⟩))

/-- An event with remarks on a label, on the parts of a condition, on a statement that does nothing,
above a choice that goes on in the line of another one, and at its end. -/
def remarked : Event where
  body := [
    .simple { remarks := [.ofComment .trailing "// place".toList] } (.label 0),
    .choice { remarks := [.ofComment .blank []] }
      (.combine .all [
        .atom (.read 1 false none) false [.ofComment .above "// first".toList],
        .atom (.read 2 false none) true [.ofComment .trailing "// second".toList]] false [])
      [.simple { remarks := [.ofComment .above "// nothing".toList] } .noOp]
      [.choice { remarks := [.ofComment .above "// otherwise".toList] }
        (.atom (.read 3 false none) false [.ofComment .trailing "// third".toList]) [] []]]
  closingRemarks := [.ofComment .above "// end".toList]

/-- On a narrow page the condition is broken, and so its remarks are on lines of it. -/
theorem format_eq_lines_remarked :
    ∃ (f g : Formatted) (lines : List WovenLine),
      ({ columnLimit := 20 } : Settings).format [remarked] = .ok f ∧
      f.text = "Event(0, Default, function() {
L0: // place

    if (cond[1]
        // first
        && !cond[2]) { // second
        // nothing
    // otherwise
    } else if (cond[3]) { // third
    }
    // end
});
".toList ∧
      ({ columnLimit := 20 } : Settings).format [remarked.stripped] = .ok g ∧
      g.text = lines.flatMap WovenLine.plain ∧ f.text = lines.flatMap WovenLine.text ∧
      (lines.flatMap WovenLine.remarks).Perm remarked.allRemarks := by
  obtain ⟨maps, hf⟩ := ({ columnLimit := 20 } : Settings).format_of_accepted (e := remarked) rfl
  have hcomments : ∀ r ∈ remarked.allRemarks, '\n' ∉ r.comment := by decide
  have hnoOps : Listing.NoOpsAreBare (Body.walk remarked.body) := by
    intro s hs hnoOp r hr
    simp only [remarked, Body.walk, Statement.walk, List.nil_append, List.append_nil,
      List.cons_append, List.mem_cons, List.not_mem_nil, or_false] at hs
    rcases hs with rfl | rfl | rfl | rfl
    · cases hnoOp
    · rw [List.mem_singleton.mp hr]
      exact RemarkKind.noConfusion
    · cases hnoOp
    · cases hnoOp
  obtain ⟨g, lines, hg, -, hplain, htext, hperm⟩ := format_eq_lines _ hcomments hnoOps hf
  refine ⟨_, g, lines, hf, ?_, hg, hplain, htext, hperm⟩
  set_option maxRecDepth 4000 in
  refine Text.eq_toList (congrArg String.ofList ?_)
  show (Listing.ofEvent { columnLimit := 20 } remarked).text = _
  decide +kernel

end Settings

end EventScript
