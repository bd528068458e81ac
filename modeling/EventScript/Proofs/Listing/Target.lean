import EventScript.Proofs.Listing.Owned

/-!
Labels stand at statements.

The declaration of a label is good for a jump only if something to jump to follows it in the same
body.

* `Listing.Lands`: behind a label only declarations and remarks come until a statement of the body
  is printed;
* `Listing.LabelsLand`: so it is behind every label of a list of pieces;
* `Listing.labelsLand_bodyOwned`, `Event.labelsLand_owned`: the pieces of bodies and of events, if
  no loop is closed by a statement of its own.
-/

namespace EventScript

/-- Whether the statement is the end of a loop whose head is a statement too. -/
def Statement.isLoopEnd : Statement → Bool
  | simple _ .loopEnd => true
  | _ => false

namespace Listing

open Layout

section

variable {p : Page}

/-! ### What stands behind a label -/

/-- A piece in front of the text of a statement: the declaration of a label, a remark above it, or
nothing that is printed. -/
inductive Leads (sp : Text) (s : Statement) : Piece → Prop
  | label (name suffix : Text) : Leads sp s (.label name suffix)
  | remark {line : Text} (h : line ∈ Remark.linesAbove s.tags.remarks) :
      Leads sp s (.plain (Remark.lineAt sp line))
  | nothing (lines : Option LineMap) : Leads sp s (.run lines [])

/-- What stands behind a label of the statement at a position. Behind declarations of labels and
remarks, the text of a statement of the same body comes, which is not in front of the label's own
and does not close a loop; or what a numbered label at the end of the body is given to stand at. -/
inductive Lands (p : Page) (q : Position) (depth : Nat) : List Owned → Prop
  | text {n : Nat} {s : Statement} {rest : List Owned} (hlabel : s.isLabel = false)
      (hloop : s.isLoopEnd = false) :
      Lands p q depth (⟨q.forward n, depth, s, headPiece p (p.indentAt depth) [] s⟩ :: rest)
  | filler {n : Nat} {s : Statement} {rest : List Owned} (hlabel : s.isLabel = true) :
      Lands p q depth
        (⟨q.forward n, depth, s, .plain (p.indentAt depth ++ "NoOp();\n".toList)⟩ :: rest)
  | lead {n : Nat} {s : Statement} {piece : Piece} {rest : List Owned}
      (hlead : Leads (p.indentAt depth) s piece) (h : Lands p q depth rest) :
      Lands p q depth (⟨q.forward n, depth, s, piece⟩ :: rest)

namespace Lands

variable {q : Position} {depth : Nat} {xs : List Owned}

lemma append (h : Lands p q depth xs) (ys : List Owned) : Lands p q depth (xs ++ ys) := by
  induction h with
  | text hlabel hloop => exact .text hlabel hloop
  | filler hlabel => exact .filler hlabel
  | lead hlead _ ih => exact .lead hlead ih

/-- What stands behind a label does so when it is seen from around the body, too. -/
lemma within (h : Lands p q depth xs) (index branch : Nat) :
    Lands p (.inside index branch q) depth (xs.map (Owned.within index branch)) := by
  induction h with
  | @text n s rest hlabel hloop =>
      exact .text (q := .inside index branch q) (n := n) hlabel hloop
  | @filler n s rest hlabel => exact .filler (q := .inside index branch q) (n := n) hlabel
  | @lead n s piece rest hlead _ ih =>
      exact .lead (q := .inside index branch q) (n := n) hlead ih

end Lands

/-- The pieces in front of a statement lead to what stands behind them. -/
lemma leads_leadPieces (sp : Text) (s : Statement) :
    ∀ piece ∈ leadPieces sp s.tags, Leads sp s piece := by
  intro piece hpiece
  obtain hpiece | hpiece := List.mem_append.mp hpiece
  · obtain ⟨line, hline, rfl⟩ := List.mem_map.mp hpiece
    exact .remark hline
  · obtain ⟨name, -, rfl⟩ := List.mem_map.mp hpiece
    exact .label name []

lemma Lands.leads {q : Position} {depth n : Nat} {s : Statement} {xs : List Owned}
    (h : Lands p q depth xs) {ps : List Piece}
    (hps : ∀ piece ∈ ps, Leads (p.indentAt depth) s piece) :
    Lands p q depth (ps.map (Owned.mk (q.forward n) depth s) ++ xs) := by
  induction ps with
  | nil => exact h
  | cons piece ps ih =>
      obtain ⟨hpiece, hps⟩ := List.forall_mem_cons.mp hps
      exact .lead hpiece (ih hps)

/-- Every label is followed by what it stands at. -/
inductive LabelsLand (p : Page) : List Owned → Prop
  | nil : LabelsLand p []
  | cons {x : Owned} {xs : List Owned}
      (hx : ∀ name suffix, x.piece = .label name suffix → Lands p x.position x.depth xs)
      (hxs : LabelsLand p xs) : LabelsLand p (x :: xs)

namespace LabelsLand

variable {xs ys : List Owned}

lemma append (h : LabelsLand p xs) (h' : LabelsLand p ys) : LabelsLand p (xs ++ ys) := by
  induction h with
  | nil => exact h'
  | cons hx _ ih => exact .cons (fun name suffix h => (hx name suffix h).append ys) ih

lemma within (h : LabelsLand p xs) (index branch : Nat) :
    LabelsLand p (xs.map (Owned.within index branch)) := by
  induction h with
  | nil => exact .nil
  | cons hx _ ih => exact .cons (fun name suffix h => (hx name suffix h).within index branch) ih

/-- A piece that is no declaration needs nothing behind it. -/
lemma run {x : Owned} {lines : Option LineMap} {t : Text} (hx : x.piece = .run lines t)
    (h : LabelsLand p xs) : LabelsLand p (x :: xs) := by
  refine .cons (fun name suffix hlabel => ?_) h
  cases hx.symm.trans hlabel

/-- The labels in front of a statement have what it has. -/
lemma leads {index depth : Nat} {s : Statement} {ps : List Piece} (h : LabelsLand p xs)
    (hps : ∀ piece ∈ ps, Leads (p.indentAt depth) s piece)
    (hlands : (∃ name suffix, Piece.label name suffix ∈ ps) → Lands p (.here index) depth xs) :
    LabelsLand p (ps.map (Owned.mk (.here index) depth s) ++ xs) := by
  induction ps with
  | nil => exact h
  | cons piece ps ih =>
      obtain ⟨-, hmore⟩ := List.forall_mem_cons.mp hps
      have htail := ih hmore fun ⟨name, suffix, hmem⟩ =>
        hlands ⟨name, suffix, List.mem_cons_of_mem piece hmem⟩
      refine .cons (fun name suffix hlabel => ?_) htail
      obtain rfl : piece = .label name suffix := hlabel
      exact (hlands ⟨name, suffix, List.mem_cons_self⟩).leads (n := 0) hmore

end LabelsLand

/-! ### Labels of bodies -/

/-- Only labels in front of a statement are declared in front of it. -/
lemma exists_label_leadPieces {sp : Text} {tags : Tags}
    (h : ∃ name suffix, Piece.label name suffix ∈ leadPieces sp tags) : tags.labels ≠ [] := by
  obtain ⟨name, suffix, hmem⟩ := h
  intro hnil
  rw [leadPieces, hnil, List.map_nil, List.append_nil, remarkLines] at hmem
  obtain ⟨line, -, hline⟩ := List.mem_map.mp hmem
  cases hline

/-- An action that is printed by its line. -/
lemma actionPieces_eq_head {depth : Nat} {before : Text} {afterLabel isLast : Bool} {tags : Tags}
    {a : Action} (hlabel : (Statement.simple tags a).isLabel = false)
    (hprinted : (Statement.simple tags a).isNoOp = true → isLeftOut tags afterLabel = false) :
    actionPieces p depth before afterLabel isLast tags a =
      [headPiece p (p.indentAt depth) before (.simple tags a)] := by
  cases a with
  | noOp => rw [actionPieces_noOp, hprinted rfl]; rfl
  | label number => cases hlabel
  | _ => rfl

/-- Behind a numbered label, what follows in the body is what the label stands at. -/
lemma lands_bodyOwned {body : Body} (hloops : ∀ s ∈ body, s.isLoopEnd = false) (hne : body ≠ [])
    {first index : Nat} (hindex : first ≤ index) (depth : Nat) :
    Lands p (.here first) depth (bodyOwned p depth [] true index body) := by
  induction body generalizing index with
  | nil => exact absurd rfl hne
  | cons s rest ih =>
      obtain ⟨hs, hrest⟩ := List.forall_mem_cons.mp hloops
      have hhere : Position.here index = (Position.here first).forward (index - first) := by
        rw [Position.forward, Nat.add_sub_cancel' hindex]
      have hlead := leads_leadPieces (p.indentAt depth) s
      rw [bodyOwned]
      cases s with
      | simple tags a =>
          rw [statementOwned, hhere, List.map_append, List.append_assoc]
          refine Lands.leads ?_ hlead
          cases hlabel : (Statement.simple tags a).isLabel with
          | false =>
              rw [actionPieces_eq_head hlabel fun _ => by simp [isLeftOut]]
              exact .text hlabel hs
          | true =>
              cases a with
              | label number =>
                  refine .lead (.nothing _) (.lead (.label _ _) ?_)
                  cases rest with
                  | nil => exact .filler rfl
                  | cons t rest => exact ih hrest (List.cons_ne_nil t rest) (by omega)
              | _ => cases hlabel
      | loop tags code body =>
          rw [statementOwned, hhere, List.append_assoc]
          exact Lands.leads (.text rfl rfl) hlead
      | choice tags c yes no =>
          rw [statementOwned, hhere, List.append_assoc]
          exact Lands.leads (.text rfl rfl) hlead

/-- The labels in front of a block stand at its head. -/
lemma labelsLand_block {index depth : Nat} {before : Text} {s : Statement} {xs : List Owned}
    (hlabel : s.isLabel = false) (hloop : s.isLoopEnd = false)
    (hbefore : s.tags.labels = [] ∨ before = []) (h : LabelsLand p xs) :
    LabelsLand p ((leadPieces (p.indentAt depth) s.tags).map (Owned.mk (.here index) depth s) ++
      ⟨.here index, depth, s, headPiece p (p.indentAt depth) before s⟩ :: xs) := by
  refine (LabelsLand.run rfl h).leads (leads_leadPieces _ s) fun hlabels => ?_
  obtain hnil | rfl := hbefore
  · exact absurd hnil (exists_label_leadPieces hlabels)
  · exact .text (n := 0) hlabel hloop

/-- A numbered label stands at what follows it, and so do the labels in front of it. -/
lemma labelsLand_label {tags : Tags} {number depth index : Nat} {before : Text}
    {afterLabel isLast : Bool} {further : List Owned} (hfurther : LabelsLand p further)
    (hnext : isLast = false → Lands p (.here index) depth further) :
    LabelsLand p (statementOwned p depth before afterLabel isLast index
      (.simple tags (.label number)) ++ further) := by
  have hnames : ∀ piece ∈ leadPieces (p.indentAt depth) tags ++
      ([.run tags.lines []] ++ [.label (Label.name number) (Remark.suffix tags.remarks)]),
      Leads (p.indentAt depth) (.simple tags (.label number)) piece := by
    refine List.forall_mem_append.mpr ⟨leads_leadPieces _ (.simple tags (.label number)), ?_⟩
    exact List.forall_mem_cons.mpr
      ⟨.nothing tags.lines, List.forall_mem_singleton.mpr (.label _ _)⟩
  rw [statementOwned, actionPieces_label, ← List.append_assoc, List.map_append, List.append_assoc]
  -- behind the names there is the filler, or what follows in the body
  cases isLast with
  | true => exact LabelsLand.leads (.run rfl hfurther) hnames fun _ => .filler (n := 0) rfl
  | false => exact LabelsLand.leads hfurther hnames fun _ => hnext rfl

/-- An action that is no numbered label has nothing but its line, and no labels if even that is left
out. -/
lemma labelsLand_action {tags : Tags} {a : Action} {depth index : Nat} {before : Text}
    {afterLabel isLast : Bool} {further : List Owned}
    (hlabel : (Statement.simple tags a).isLabel = false)
    (hloop : (Statement.simple tags a).isLoopEnd = false)
    (hbefore : tags.labels = [] ∨ before = []) (hfurther : LabelsLand p further) :
    LabelsLand p (statementOwned p depth before afterLabel isLast index (.simple tags a) ++
      further) := by
  rw [statementOwned, List.map_append, List.append_assoc]
  cases hprinted : (Statement.simple tags a).isNoOp && isLeftOut tags afterLabel with
  | false =>
      have hkept : (Statement.simple tags a).isNoOp = true → isLeftOut tags afterLabel = false :=
        fun hnoOp => by simpa [hnoOp] using hprinted
      rw [actionPieces_eq_head hlabel hkept]
      exact labelsLand_block hlabel hloop hbefore hfurther
  | true =>
      obtain ⟨hnoOp, hout⟩ := Bool.and_eq_true_iff.mp hprinted
      have hnil : tags.labels = [] := by
        simp only [isLeftOut, Bool.and_eq_true, List.isEmpty_iff] at hout
        exact hout.1.1
      cases a with
      | noOp =>
          rw [actionPieces_noOp, if_pos hout]
          refine LabelsLand.leads (.run rfl hfurther) (leads_leadPieces _ (.simple tags .noOp)) ?_
          exact fun hlabels => absurd hnil (exists_label_leadPieces hlabels)
      | _ => cases hnoOp

mutual

/-- The labels of a statement stand at something, if what follows a numbered one does. -/
lemma labelsLand_statementOwned : ∀ (s : Statement),
    (∀ t ∈ s.walk, t.isLoopEnd = false) → ∀ (depth : Nat) (before : Text)
      (afterLabel isLast : Bool) (index : Nat) (further : List Owned),
      s.tags.labels = [] ∨ before = [] → LabelsLand p further →
      (s.isLabel = true → isLast = false → Lands p (.here index) depth further) →
        LabelsLand p (statementOwned p depth before afterLabel isLast index s ++ further)
  | .simple tags a, hloops, depth, before, afterLabel, isLast, index, further, hbefore, hfurther,
      hnext => by
      cases hlabel : (Statement.simple tags a).isLabel with
      | true =>
          cases a with
          | label number => exact labelsLand_label hfurther (hnext rfl)
          | _ => cases hlabel
      | false =>
          have hloop := hloops _ (List.mem_singleton_self _)
          exact labelsLand_action hlabel hloop hbefore hfurther
  | .loop tags code body, hloops, depth, before, afterLabel, isLast, index, further, hbefore,
      hfurther, hnext => by
      have hbody := labelsLand_bodyOwned body (fun t ht => hloops t (List.mem_append_left _ ht))
        (depth + 1) [] false 0 (Or.inl rfl)
      have hend : LabelsLand p
          [⟨.here index, depth, .loop tags code body, closing (p.indentAt depth)⟩] := .run rfl .nil
      rw [statementOwned]
      exact (labelsLand_block (s := .loop tags code body) rfl rfl hbefore
        ((hbody.within index 0).append hend)).append hfurther
  | .choice tags c yes no, hloops, depth, before, afterLabel, isLast, index, further, hbefore,
      hfurther, hnext => by
      have hyes := labelsLand_bodyOwned yes (fun t ht => hloops t (List.mem_append_left _
        (List.mem_append_left _ ht))) (depth + 1) [] false 0 (Or.inl rfl)
      have hno := labelsLand_bodyOwned no fun t ht => hloops t (List.mem_append_left _
        (List.mem_append_right _ ht))
      have hend : LabelsLand p
          [⟨.here index, depth, .choice tags c yes no, closing (p.indentAt depth)⟩] :=
        .run rfl .nil
      rw [statementOwned]
      refine (labelsLand_block (s := .choice tags c yes no) rfl rfl hbefore
        ((hyes.within index 0).append ?_)).append hfurther
      split
      · next hjoined => exact (hno depth _ false 0 (Or.inr hjoined)).within index 1
      · refine LabelsLand.append ?_ hend
        split
        · exact .nil
        · exact .run rfl ((hno (depth + 1) [] false 0 (Or.inl rfl)).within index 1)

/-- The labels of a body stand at something. -/
lemma labelsLand_bodyOwned : ∀ (body : List Statement),
    (∀ t ∈ Body.walk body, t.isLoopEnd = false) → ∀ (depth : Nat) (before : Text)
      (afterLabel : Bool) (index : Nat),
      before = [] ∨ Body.isJoined body = true →
        LabelsLand p (bodyOwned p depth before afterLabel index body)
  | [], hloops, depth, before, afterLabel, index, hbefore => .nil
  | s :: rest, hloops, depth, before, afterLabel, index, hbefore => by
      have hs : ∀ t ∈ s.walk, t.isLoopEnd = false := fun t ht =>
        hloops t (List.mem_append_left _ ht)
      have hrest : ∀ t ∈ Body.walk rest, t.isLoopEnd = false := fun t ht =>
        hloops t (List.mem_append_right _ ht)
      have hfurther := labelsLand_bodyOwned rest hrest depth [] s.isLabel (index + 1) (Or.inl rfl)
      have hfree : s.tags.labels = [] ∨ before = [] := by
        refine hbefore.symm.imp_left fun hjoined => ?_
        rw [Body.isJoined_cons, Bool.and_eq_true] at hjoined
        exact List.isEmpty_iff.mp hjoined.2
      rw [bodyOwned]
      refine labelsLand_statementOwned s hs depth before afterLabel rest.isEmpty index _ hfree
        hfurther fun hlabel hlast => ?_
      have hne : rest ≠ [] := by
        rintro rfl
        cases hlast
      rw [hlabel]
      exact lands_bodyOwned (fun t ht => hrest t (Body.mem_walk_of_mem ht)) hne
        (Nat.le_succ index) depth

end

end

/-! ### Repeated labels -/

variable {p : Page} {xs : List Owned}

/-- New names do not change what a label stands at. -/
lemma Lands.tellOwned {q : Position} {depth : Nat} (h : Lands p q depth xs) (used : List Text) :
    Lands p q depth (Listing.tellOwned used xs) := by
  induction h generalizing used with
  | text hlabel hloop => exact .text hlabel hloop
  | filler hlabel => exact .filler hlabel
  | lead hlead _ ih =>
      cases hlead with
      | label name suffix => exact .lead (.label _ _) (ih _)
      | remark hline => exact .lead (.remark hline) (ih _)
      | nothing lines => exact .lead (.nothing _) (ih _)

lemma LabelsLand.tellOwned (h : LabelsLand p xs) (used : List Text) :
    LabelsLand p (Listing.tellOwned used xs) := by
  induction h generalizing used with
  | nil => exact .nil
  | @cons x xs hx hxs ih =>
      obtain ⟨q, depth, s, piece⟩ := x
      cases piece with
      | run lines t => exact .run rfl (ih used)
      | label name suffix =>
          exact .cons (fun _ _ _ => (hx name suffix rfl).tellOwned _) (ih _)

/-- Each label of the list stands at something. -/
lemma LabelsLand.lands {x : Owned} {front back : List Owned} {name suffix : Text}
    (h : LabelsLand p (front ++ x :: back)) (hx : x.piece = .label name suffix) :
    Lands p x.position x.depth back := by
  induction front with
  | nil =>
      cases h with
      | cons hlands hback => exact hlands name suffix hx
  | cons y front ih =>
      cases h with
      | cons _ hrest => exact ih hrest

end Listing

namespace Event

open Listing

variable {e : Event}

/-- **Every label of an event has something to stand at**, if no loop in it is closed by a statement
of its own. -/
theorem labelsLand_owned (k : Settings) (h : ∀ q s, e.get? q = some s → s.isLoopEnd = false) :
    LabelsLand (.ofSettings k) (e.owned k) := by
  have hloops : ∀ t ∈ Body.walk e.body, t.isLoopEnd = false := by
    intro t ht
    obtain ⟨q, hq⟩ := Body.mem_walk_iff.mp ht
    exact h q t hq
  have hbody := labelsLand_bodyOwned (p := .ofSettings k) e.body hloops 1 [] false 0 (Or.inl rfl)
  rw [owned]
  split
  · exact hbody.tellOwned []
  · exact hbody

end Event

end EventScript
