import EventScript.Proofs.Listing.Apart
import EventScript.Proofs.Listing.Mapped
import EventScript.Proofs.Reference.Dangling

/-!
The labels of printed events.

A jump is printed with the label it goes to, and this label is never renamed. The labels declared in
an event may be: where they are told apart, they are printed under the new names of their names.

* `Statement.lineLabels`, `Event.lineLabels`: the labels for which there are lines of their own,
  and `Listing.labelNames`: the names in these lines, which are those of the labels or their new
  names (`Listing.labelNames_declaredPieces`);
* `Listing.HasLine`: a statement has a line that begins with a call;
* `Event.labelsPrinted`: in an event without dangling references no printed jump dangles, and labels
  that are told apart have different names;
* `Event.declared_once`: a label that is told apart is declared once under its own name, at its
  first declaration exactly if the labels in front of it do not crowd it out.
-/

namespace EventScript

/-! ### Calls -/

namespace Layout

/-- Blanks behind a comma are trimmed. -/
lemma trimEnd_comma (t : Text) : Text.trimEnd (t ++ ", ".toList) = t ++ [','] := by
  have hreverse : (t ++ ", ".toList).reverse = ' ' :: ',' :: t.reverse := by simp
  have hblank : Text.isBlank ' ' = true := by decide
  have hcomma : ¬ Text.isBlank ',' = true := by decide
  rw [Text.trimEnd, hreverse, List.dropWhile_cons_of_pos hblank, List.dropWhile_cons_of_neg hcomma,
    List.reverse_cons, List.reverse_reverse]

namespace Tree

variable (p : Page) (sp : Text) (column trailing : Nat) (pending : Pending)

/-- A leaf is rendered as its text, whatever remarks are on it. -/
lemma fst_render_leaf (t : Text) (remarks : List Remark) :
    (render p sp column trailing (leaf t remarks) pending).1 = t := by
  have hflat : (renderFlat (leaf t remarks) pending).1 = t := by
    rw [renderFlat, leaf, oneLine, partTexts]
    simp
  rw [leaf, render.eq_def]
  simp only
  split
  · exact hflat
  · exact hflat

/-- A call is on the line on which it starts, whether its argument is broken or not. -/
lemma exists_fst_render_behind (call closing : Text) (t : Tree) : ∃ rest,
    (render p sp column trailing (behind (call ++ ", ".toList) t closing) pending).1 =
      call ++ rest := by
  rw [behind, render.eq_def]
  simp only
  split
  · rw [renderFlat, oneLine, partTexts, partTexts, partTexts, List.intercalate_cons_cons]
    refine ⟨", ".toList ++ [].intercalate [t.oneLine] ++ closing, ?_⟩
    simp [leaf, oneLine, partTexts]
  · rw [fst_render_leaf, List.nil_append, trimEnd_comma]
    simp [Pending.lineEnd]

/-- A line begins as what is on it, behind the remarks above, the indent and what is put in
front. -/
lemma exists_renderLine {call : Text} {t : Tree} (before behind : Text)
    (h : ∀ column, ∃ rest, (render p sp column 0 t .none).1 = call ++ rest) :
    ∃ above rest, renderLine p sp before behind t = above ++ (sp ++ before ++ call) ++ rest := by
  obtain ⟨rest, hrest⟩ := h (sp.length + before.length)
  rw [renderLine]
  rcases hrender : render p sp (sp.length + before.length) 0 t .none with ⟨text, after⟩
  rw [hrender] at hrest
  subst hrest
  exact ⟨after.linesAt sp, rest ++ behind ++ after.suffix ++ ['\n'], by simp [Pending.line]⟩

end Tree

end Layout

/-! ### Declared labels -/

/-- The numbered label that an action is. -/
def Action.labelName? : Action → Option Text
  | label number => some (Label.name number)
  | _ => none

/-- The labels of a statement that have lines of their own: those in front of it, and the one it
is. -/
def Statement.lineLabels (s : Statement) : List Text :=
  s.tags.labels ++ (s.action?.bind Action.labelName?).toList

/-- The labels of an event that have lines of their own, in the order in which they are printed. -/
def Event.lineLabels (e : Event) : List Text :=
  (Body.preorder e.body).flatMap Statement.lineLabels

/-- A declared label has a line of its own, or is that of a place to be filled in. -/
lemma Statement.mem_declaredLabels_iff {s : Statement} {name : Text} : name ∈ s.declaredLabels ↔
    name ∈ s.lineLabels ∨ s.action? = some (.fillSkip name) := by
  rw [declaredLabels, lineLabels, List.mem_append, List.mem_append, or_assoc]
  refine or_congr_right ?_
  cases s with
  | simple tags a => cases a <;> simp [action?, Action.ownLabel?, Action.labelName?, eq_comm]
  | loop tags code body => simp [action?]
  | choice tags c yes no => simp [action?]

mutual

/-- Statements are visited and printed in different orders. -/
lemma Statement.preorder_perm : ∀ s : Statement, s.preorder.Perm s.walk
  | .simple tags a => .refl _
  | .loop tags code body => by
      rw [Statement.preorder, Statement.walk]
      exact ((Body.preorder_perm body).cons _).trans (List.perm_append_singleton ..).symm
  | .choice tags c yes no => by
      have hbodies := (Body.preorder_perm yes).append (Body.preorder_perm no)
      rw [Statement.preorder, Statement.walk]
      exact (hbodies.cons _).trans (List.perm_append_singleton ..).symm

lemma Body.preorder_perm : ∀ body : Body, (Body.preorder body).Perm (Body.walk body)
  | [] => .refl _
  | s :: rest => by
      rw [Body.preorder, Body.walk]
      exact s.preorder_perm.append (Body.preorder_perm rest)

end

namespace Listing

open Layout

/-- The name that a piece declares. -/
def Piece.label? : Piece → Option Text
  | .run _ _ => none
  | .label name _ => some name

/-- The names that pieces declare, in their order. -/
def labelNames (ps : List Piece) : List Text := ps.filterMap Piece.label?

@[simp] lemma labelNames_nil : labelNames [] = [] := rfl

@[simp] lemma labelNames_plain (t : Text) (ps : List Piece) :
    labelNames (.plain t :: ps) = labelNames ps := rfl

@[simp] lemma labelNames_run (source : Option LineMap) (t : Text) (ps : List Piece) :
    labelNames (.run source t :: ps) = labelNames ps := rfl

@[simp] lemma labelNames_label (name suffix : Text) (ps : List Piece) :
    labelNames (.label name suffix :: ps) = name :: labelNames ps := rfl

@[simp] lemma labelNames_headPiece (p : Page) (sp before : Text) (s : Statement)
    (ps : List Piece) : labelNames (headPiece p sp before s :: ps) = labelNames ps := rfl

@[simp] lemma labelNames_append (ps qs : List Piece) :
    labelNames (ps ++ qs) = labelNames ps ++ labelNames qs := List.filterMap_append

@[simp] lemma labelNames_closing (sp : Text) : labelNames [closing sp] = [] := rfl

@[simp] lemma labelNames_dividing (sp : Text) (ps : List Piece) :
    labelNames (dividing sp :: ps) = labelNames ps := rfl

@[simp] lemma labelNames_remarkLines (sp : Text) (rs : List Remark) :
    labelNames (remarkLines sp rs) = [] := by
  rw [remarkLines, labelNames, List.filterMap_map, List.filterMap_eq_nil_iff]
  exact fun _ _ => rfl

@[simp] lemma labelNames_leadPieces (sp : Text) (tags : Tags) :
    labelNames (leadPieces sp tags) = tags.labels := by
  have hlabels : (Piece.label? ∘ fun name => Piece.label name []) = some := rfl
  rw [leadPieces, labelNames_append, labelNames_remarkLines, List.nil_append, labelNames,
    List.filterMap_map, hlabels, List.filterMap_some]

section

variable {p : Page}

@[simp] lemma labelNames_actionPieces (depth : Nat) (before : Text) (afterLabel isLast : Bool)
    (tags : Tags) (a : Action) :
    labelNames (actionPieces p depth before afterLabel isLast tags a) = a.labelName?.toList := by
  cases a with
  | noOp =>
      rw [actionPieces_noOp]
      split <;> rfl
  | label number =>
      rw [actionPieces_label]
      cases isLast <;> rfl
  | _ => rfl

/-- The names declared in a second branch. -/
lemma labelNames_elsePieces (depth : Nat) {no : Body} {names : List Text}
    (hno : labelNames (bodyPieces p (depth + 1) [] false no) = names)
    (helse : labelNames (bodyPieces p depth Text.blockElse false no) = names) :
    labelNames (elsePieces p depth no) = names := by
  cases no with
  | nil =>
      rw [← hno]
      rfl
  | cons s rest =>
      rw [elsePieces_cons]
      split
      · exact helse
      · rw [labelNames_dividing, labelNames_append, labelNames_closing, List.append_nil, hno]

mutual

/-- The names that the lines of a statement declare are its labels. -/
lemma labelNames_statementPieces : ∀ (s : Statement) (depth : Nat) (before : Text)
    (afterLabel isLast : Bool),
      labelNames (statementPieces p depth before afterLabel isLast s) =
        s.preorder.flatMap Statement.lineLabels
  | .simple tags a, depth, before, afterLabel, isLast => by
      rw [statementPieces, Statement.preorder, List.flatMap_singleton]
      simp [Statement.lineLabels, Statement.tags, Statement.action?]
  | .loop tags code body, depth, before, afterLabel, isLast => by
      have hbody := labelNames_bodyPieces body (depth + 1) [] false
      rw [statementPieces, Statement.preorder, List.flatMap_cons]
      simp [hbody, Statement.lineLabels, Statement.tags, Statement.action?]
  | .choice tags c yes no, depth, before, afterLabel, isLast => by
      have hyes := labelNames_bodyPieces yes (depth + 1) [] false
      have helse := labelNames_elsePieces depth (labelNames_bodyPieces no (depth + 1) [] false)
        (labelNames_bodyPieces no depth Text.blockElse false)
      rw [statementPieces_choice, Statement.preorder, List.flatMap_cons, List.flatMap_append]
      simp [hyes, helse, Statement.lineLabels, Statement.tags, Statement.action?]

lemma labelNames_bodyPieces : ∀ (body : Body) (depth : Nat) (before : Text) (afterLabel : Bool),
    labelNames (bodyPieces p depth before afterLabel body) =
      (Body.preorder body).flatMap Statement.lineLabels
  | [], depth, before, afterLabel => rfl
  | s :: rest, depth, before, afterLabel => by
      have hs := labelNames_statementPieces s depth before afterLabel rest.isEmpty
      have hrest := labelNames_bodyPieces rest depth [] s.isLabel
      rw [bodyPieces, labelNames_append, hs, hrest, Body.preorder, List.flatMap_append]

end

lemma labelNames_declarationPieces (e : Event) :
    labelNames (declarationPieces p e) = e.lineLabels := by
  rw [declarationPieces, closingPieces]
  simp [labelNames_bodyPieces, Event.lineLabels]

end

/-- Pieces told apart declare new names. -/
lemma labelNames_tellApart (used : List Text) (ps : List Piece) :
    labelNames (tellApart used ps) = newNames used (labelNames ps) := by
  induction ps generalizing used with
  | nil => rfl
  | cons q ps ih =>
      cases q with
      | run source t => rw [tellApart, labelNames_run, labelNames_run, ih]
      | label name suffix => rw [tellApart, labelNames_label, labelNames_label, ih, newNames]

/-- **The names declared in a printed event** are its labels, or their new names where they are told
apart. -/
theorem labelNames_declaredPieces (k : Settings) (e : Event) :
    labelNames (declaredPieces k e) =
      if k.labelNaming.appliesTo e.id then newNames [] e.lineLabels else e.lineLabels := by
  rw [declaredPieces]
  split
  · rw [labelNames_tellApart, labelNames_declarationPieces]
  · rw [labelNames_declarationPieces]

/-! ### Printed calls -/

/-- The line of a statement is among some pieces, and it begins with a call, behind the remarks
above it, its indent and what closes the branch in front of it. -/
def HasLine (p : Page) (ps : List Piece) (s : Statement) (call : Text) : Prop :=
  ∃ depth before, headPiece p (p.indentAt depth) before s ∈ ps ∧
    ∃ above rest, (headPiece p (p.indentAt depth) before s).text =
      above ++ (p.indentAt depth ++ before ++ call) ++ rest

variable {k : Settings} {e : Event} {s : Statement}

lemma HasLine.of_mem {p : Page} {ps : List Piece} {depth : Nat} {before call : Text}
    (hmem : headPiece p (p.indentAt depth) before s ∈ ps)
    (h : ∀ column, ∃ rest, (s.layout.render p (p.indentAt depth) column 0 .none).1 = call ++ rest) :
    HasLine p ps s call := by
  have htext : (headPiece p (p.indentAt depth) before s).text =
      s.layout.renderLine p (p.indentAt depth) before (Remark.suffix s.tags.remarks) := rfl
  refine ⟨depth, before, hmem, ?_⟩
  rw [htext]
  exact Tree.exists_renderLine p _ before _ h

/-- A statement that is no label and does something has a line. -/
lemma exists_headPiece {q : Position} (hs : e.get? q = some s) (hlabel : s.isLabel = false)
    (hnoOp : s.isNoOp = false) :
    ∃ depth before, headPiece (.ofSettings k) ((Page.ofSettings k).indentAt depth) before s ∈
      declaredPieces k e := by
  have hmem : s ∈ e.spots.map Spot.statement := by
    rw [Event.spots, map_statement_bodySpots, (Body.preorder_perm e.body).mem_iff]
    exact Body.mem_walk_iff.mpr ⟨q, hs⟩
  obtain ⟨x, hx, rfl⟩ := List.mem_map.mp hmem
  obtain ⟨xs, ys, hspots⟩ := List.append_of_mem hx
  have haligned := aligned_declaredPieces k e
  rw [hspots] at haligned
  obtain ⟨front, own, back, hpieces, -, hown, -⟩ := haligned.exists_split
  rw [hpieces]
  have hprinted : x.isPrinted = true := by rw [Spot.isPrinted, hnoOp]; rfl
  cases hown with
  | lines =>
      refine ⟨x.depth, x.before, List.mem_append_right _ ?_⟩
      exact List.mem_cons_self
  | label hnot =>
      rw [hlabel] at hnot
      cases hnot
  | nothing hnot =>
      rw [hprinted] at hnot
      cases hnot

/-- The line of a jump begins with its call and its target. -/
lemma hasLine_of_target? {q : Position} (hs : e.get? q = some s) {target : Target}
    (ht : s.target? = some target) :
    ∃ isAlways, HasLine (.ofSettings k) (declaredPieces k e) s (target.callHead isAlways) := by
  cases s with
  | loop tags code body => cases ht
  | choice tags c yes no => cases ht
  | simple tags a =>
      cases a with
      | jump target' c =>
          obtain rfl : target' = target := Option.some.inj ht
          obtain ⟨depth, before, hmem⟩ := exists_headPiece (k := k) hs rfl rfl
          refine ⟨c.isAlways, .of_mem hmem fun column => ?_⟩
          have hlayout : (Statement.simple tags (.jump target' c)).layout =
              c.callLayout (Action.jump target' c).text (target'.callHead false ++ ", ".toList) :=
            Action.layout_jump target' c
          rw [hlayout, Condition.callLayout]
          cases halways : c.isAlways with
          | true =>
              have htext : (Action.jump target' c).text = target'.callHead c.isAlways ++
                  (if c.isAlways then [] else ", ".toList ++ c.bareText) ++ ");".toList := rfl
              rw [if_pos rfl, Tree.fst_render_leaf, htext, halways, List.append_assoc]
              exact ⟨_, rfl⟩
          | false =>
              rw [if_neg Bool.false_ne_true]
              exact Tree.exists_fst_render_behind ..
      | _ => cases ht

/-- The line of a place to be filled in is its call. -/
lemma hasLine_of_fillSkip {q : Position} (hs : e.get? q = some s) {name : Text}
    (ha : s.action? = some (.fillSkip name)) :
    HasLine (.ofSettings k) (declaredPieces k e) s (Action.fillSkip name).text := by
  cases s with
  | loop tags code body => cases ha
  | choice tags c yes no => cases ha
  | simple tags a =>
      obtain rfl : a = .fillSkip name := Option.some.inj ha
      obtain ⟨depth, before, hmem⟩ := exists_headPiece (k := k) hs rfl rfl
      have hlayout : (Statement.simple tags (.fillSkip name)).layout =
          .leaf (Action.fillSkip name).text [] := rfl
      refine .of_mem hmem fun column => ⟨[], ?_⟩
      rw [hlayout, Tree.fst_render_leaf, List.append_nil]

end Listing

/-! ### Jumps of printed events -/

namespace Event

variable {k : Settings} {e : Event}

/-- What jumps to labels find in a printed event. -/
structure LabelsPrinted (k : Settings) (e : Event) : Prop where
  /-- The event is formatted. -/
  formats : ∃ f, k.format [e] = .ok f
  /-- With the event, alone or among others, the pieces of its declaration are printed. -/
  prints : ∀ ⦃before after f⦄, k.format (before ++ e :: after) = .ok f →
    ∃ front back, f.text = front ++ (Listing.declaredPieces k e).flatMap Listing.Piece.text ++ back
  /-- A jump is printed with the label it goes to, and with it a declaration of exactly this label,
  or a place to be filled in for it. -/
  lands : ∀ ⦃q s target⦄, e.get? q = some s → s.target? = some target →
    ∃ name, target = .label name ∧
      (∃ isAlways, Listing.HasLine (.ofSettings k) (Listing.declaredPieces k e) s
        (target.callHead isAlways)) ∧
      (name ∈ Listing.labelNames (Listing.declaredPieces k e) ∨
        ∃ p t, e.get? p = some t ∧ t.action? = some (.fillSkip name) ∧
          Listing.HasLine (.ofSettings k) (Listing.declaredPieces k e) t
            (Action.fillSkip name).text)
  /-- Labels that are told apart are pairwise distinct, and each is the declared one with
  underscores. -/
  apart : k.labelNaming.appliesTo e.id = true →
    (Listing.labelNames (Listing.declaredPieces k e)).Nodup ∧
      List.Forall₂ (fun name printed => ∃ n, printed = Listing.underscored name n) e.lineLabels
        (Listing.labelNames (Listing.declaredPieces k e))
  /-- The others are the declared ones. -/
  same : k.labelNaming.appliesTo e.id = false →
    Listing.labelNames (Listing.declaredPieces k e) = e.lineLabels

/-- No label is lost where it is printed. -/
lemma mem_labelNames {name : Text} (h : name ∈ e.lineLabels) :
    name ∈ Listing.labelNames (Listing.declaredPieces k e) := by
  rw [Listing.labelNames_declaredPieces]
  split
  · exact Listing.mem_newNames_of_mem h List.not_mem_nil
  · exact h

/-- What a jump goes to is declared. -/
lemma exists_of_target? (h : e.referenceFault? = none) {q : Position} {s : Statement}
    (hs : e.get? q = some s) {target : Target} (ht : s.target? = some target) :
    ∃ name, target = .label name ∧ ∃ p t, e.get? p = some t ∧ name ∈ t.declaredLabels := by
  rw [referenceFault?_eq_none_iff] at h
  cases hlabel : target.label? with
  | none => exact absurd (.transient hs ht hlabel) (h _)
  | some name =>
      obtain rfl : target = .label name := by
        cases target with
        | label name' => exact congrArg Target.label (Option.some.inj hlabel)
        | node n => cases hlabel
        | skip commands => cases hlabel
      refine ⟨name, rfl, ?_⟩
      by_contra hnone
      push Not at hnone
      exact h _ (.label hs ht hnone)

/-- **No printed jump dangles** in an event without dangling references, and labels that are told
apart are unique. -/
theorem labelsPrinted (k : Settings) (h : e.referenceFault? = none) : e.LabelsPrinted k where
  formats := by
    have haccepted : k.refusal? e = none := by
      rw [Settings.refusal?, h]
      exact ite_self none
    obtain ⟨maps, hformat⟩ := k.format_of_accepted haccepted
    exact ⟨_, hformat⟩
  prints := by
    intro before after f hformat
    obtain ⟨htext, -⟩ := Listing.eq_ofEvents_of_format hformat
    obtain ⟨front, back, hsplit, -⟩ := Listing.exists_split_ofEvents k [] rfl before after e
    refine ⟨Listing.text front ++ Listing.text (Listing.headerSection e), Listing.text back, ?_⟩
    rw [htext, hsplit, Listing.ofEvent_eq]
    simp [Listing.text, Listing.Section.text]
  lands := by
    intro q s target hs ht
    obtain ⟨name, rfl, p, t, hp, hname⟩ := exists_of_target? h hs ht
    refine ⟨name, rfl, Listing.hasLine_of_target? hs ht, ?_⟩
    rcases Statement.mem_declaredLabels_iff.mp hname with hline | hfill
    · refine Or.inl (mem_labelNames (List.mem_flatMap.mpr ⟨t, ?_, hline⟩))
      rw [(Body.preorder_perm e.body).mem_iff]
      exact Body.mem_walk_iff.mpr ⟨p, hp⟩
    · exact Or.inr ⟨p, t, hp, hfill, Listing.hasLine_of_fillSkip hp hfill⟩
  apart := by
    intro happlies
    rw [Listing.labelNames_declaredPieces, if_pos happlies]
    exact ⟨Listing.nodup_newNames [] _, Listing.forall₂_newNames [] _⟩
  same := by
    intro hnot
    rw [Listing.labelNames_declaredPieces, hnot]
    rfl

/-- An event with jumps to a label that is declared twice, to a numbered one, and to a place to be
filled in. -/
def repeated : Event where
  id := .number 1600
  body := [
    .simple {} (.jump (.label "a".toList) .always),
    .loop {} "while (x)".toList [
      .simple { labels := ["a".toList] } (.fillSkip "#a".toList),
      .simple {} (.jump (.label "#a".toList) (.atom (.read 1 false none) false []))],
    .simple { labels := ["a".toList] } (.jump (.label "L3".toList) .always),
    .simple {} (.label 3)]

/-- The labels of `repeated` are told apart, and its jumps keep theirs. -/
theorem labelsPrinted_repeated : repeated.LabelsPrinted {} ∧
    Listing.labelNames (Listing.declaredPieces {} repeated) =
      ["a".toList, "a_".toList, "L3".toList] :=
  ⟨labelsPrinted {} rfl, by decide⟩

/-- **A label that is told apart is declared once under its own name**, at its first declaration or
in front of it. It is declared there exactly if the labels in front of it do not crowd it out. -/
theorem declared_once {name : Text} (happlies : k.labelNaming.appliesTo e.id = true)
    (h : name ∈ e.lineLabels) :
    (Listing.labelNames (Listing.declaredPieces k e)).count name = 1 ∧
      (Listing.labelNames (Listing.declaredPieces k e)).idxOf name ≤ e.lineLabels.idxOf name ∧
      ((Listing.labelNames (Listing.declaredPieces k e)).idxOf name = e.lineLabels.idxOf name ↔
        ¬ Listing.IsCrowded (e.lineLabels.take (e.lineLabels.idxOf name)) name) := by
  rw [Listing.labelNames_declaredPieces, if_pos happlies]
  refine ⟨?_, Listing.idxOf_newNames h⟩
  exact List.count_eq_one_of_mem (Listing.nodup_newNames [] _)
    (Listing.mem_newNames_of_mem h List.not_mem_nil)

/-- The label of the event that is declared twice is not crowded out. -/
theorem declared_once_repeated :
    (Listing.labelNames (Listing.declaredPieces {} repeated)).count "a".toList = 1 ∧
      (Listing.labelNames (Listing.declaredPieces {} repeated)).idxOf "a".toList =
        repeated.lineLabels.idxOf "a".toList := by
  have hname : "a".toList ∈ repeated.lineLabels := by decide
  obtain ⟨hcount, hle, -⟩ := declared_once (k := {}) rfl hname
  exact ⟨hcount, Nat.le_antisymm hle (by decide)⟩

/-- An event with a jump to a label behind two declarations of that label without its underscore. -/
def crowded : Event where
  id := .number 1600
  body := [
    .simple { labels := ["a".toList] } .noOp,
    .simple { labels := ["a".toList] } .noOp,
    .simple { labels := ["a_".toList] } .noOp,
    .simple {} (.jump (.label "a_".toList) .always)]

/-- The second of them has taken the name that the jump is printed with, and the label of the jump
is declared under another one. -/
theorem declared_elsewhere_crowded :
    LabelNaming.appliesTo ({} : Settings).labelNaming crowded.id = true ∧
      crowded.lineLabels = ["a".toList, "a".toList, "a_".toList] ∧
      Listing.labelNames (Listing.declaredPieces {} crowded) =
        ["a".toList, "a_".toList, "a__".toList] ∧
      (Listing.labelNames (Listing.declaredPieces {} crowded)).idxOf "a_".toList ≠
        crowded.lineLabels.idxOf "a_".toList ∧
      (({} : Settings).format [crowded]).toOption.map Formatted.text =
        some "Event(1600, Default, function() {
a:
    NoOp();
a_:
    NoOp();
a__:
    NoOp();
    Goto(a_);
});
".toList := by
  obtain ⟨maps, hf⟩ := ({} : Settings).format_of_accepted (e := crowded) rfl
  refine ⟨by decide, by decide, by decide, by decide, ?_⟩
  rw [hf]
  refine congrArg some (Text.eq_toList (congrArg String.ofList ?_))
  show (Listing.ofEvent {} crowded).text = _
  decide +kernel

end Event

end EventScript
