import EventScript.Proofs.Listing.Outline
import EventScript.Proofs.Listing.Written

/-!
The printed text of an outline determines it, up to what is never printed.

* `Statement.bare`, `Body.bare`: what is left of a statement without the node it is known by, its
  source lines, the wish for its label and the id of its command;
* `Listing.Determined`: a statement that is determined by its rows, whatever stands behind them;
* `Listing.determined_of_isOutline`: every statement of an outline is;
* `Settings.bare_eq_of_format_eq`: hence two outlines in the same event with the same formatted text
  agree in all that is printed.
-/

namespace EventScript

/-! ### What is never printed -/

/-- The labels and the remarks. -/
def Tags.bare (tags : Tags) : Tags := { labels := tags.labels, remarks := tags.remarks }

/-- The command without the id it was read from. -/
def Command.bare (c : Command) : Command := { c with id := none }

/-- The action without the id of its command. -/
def Action.bare : Action → Action
  | command c => command c.bare
  | a => a

mutual

/-- The statement without what is never printed. -/
def Statement.bare : Statement → Statement
  | .simple tags a => .simple tags.bare a.bare
  | .loop tags code body => .loop tags.bare code (Body.bare body)
  | .choice tags c yes no => .choice tags.bare c (Body.bare yes) (Body.bare no)

/-- The body without what is never printed. -/
def Body.bare : List Statement → List Statement
  | [] => []
  | s :: rest => s.bare :: Body.bare rest

end

lemma Tags.IsPlain.bare_eq {t₁ t₂ : Tags} (h₁ : t₁.IsPlain) (h₂ : t₂.IsPlain)
    (h : t₁.labels = t₂.labels) : t₁.bare = t₂.bare := by
  rw [bare, bare, h, h₁.remarks, h₂.remarks]

lemma Command.IsPlain.bare_eq {c₁ c₂ : Command} (h₁ : c₁.IsPlain) (h₂ : c₂.IsPlain)
    (h : c₁.text = c₂.text) : c₁.bare = c₂.bare := by
  obtain ⟨hname, harguments⟩ := h₁.text_inj h₂ h
  rw [bare, bare, hname, harguments, h₁.layers, h₂.layers]

namespace Listing

/-! ### How bodies begin and end -/

/-- Whether a row closes a block. -/
def Row.closes : Row → Bool
  | .choice joined _ => joined
  | .otherwise => true
  | .close => true
  | _ => false

/-- Rows that may follow a body: none, or first one that closes a block. -/
def EndsBody (rows : List Row) : Prop := ∀ r rest, rows = r :: rest → r.closes = true

/-- Rows that may follow a label in front of another statement. -/
def FollowsLabel (rows : List Row) : Prop := ∀ rest, rows ≠ .noOp :: rest

/-- The rows of a statement that does not go on in another line: the first one closes nothing, does
something, and declares no label but a numbered one. -/
lemma exists_statementRows_eq_cons {s : Statement} (h : s.IsOutline) (isLast : Bool) :
    ∃ r rows, statementRows false isLast s = r :: rows ∧ r.closes = false ∧ r ≠ .noOp ∧
      ∀ name, r = .label name → Label.isNumbered name = true := by
  cases h with
  | @command tags c ht hc =>
      refine ⟨.action c.text, [], rfl, rfl, fun hnoOp => ?_, nofun⟩
      exact hc.text_ne_noOp (Row.action.inj hnoOp)
  | label number ht =>
      refine ⟨.label (Label.name number), _, rfl, rfl, nofun, fun name hname => ?_⟩
      rw [← Row.label.inj hname]
      exact Label.isNumbered_name number
  | loop ht hx hbody => exact ⟨_, _, rfl, rfl, nofun, nofun⟩
  | choice negated ht hq hyes hno => exact ⟨_, _, rfl, rfl, nofun, nofun⟩

lemma isNumbered_of_statementRows {s : Statement} (h : s.IsOutline) {isLast : Bool}
    {more rest : List Row} {name : Text}
    (heq : statementRows false isLast s ++ more = .label name :: rest) :
    Label.isNumbered name = true := by
  obtain ⟨r, rows, hrows, -, -, hnumbered⟩ := exists_statementRows_eq_cons h isLast
  rw [hrows] at heq
  exact hnumbered name (List.cons.inj heq).1

/-- The rows of a body that is not empty. -/
lemma exists_bodyRows_eq_cons {s : Statement} (h : s.IsOutline) (rest : Body) :
    ∃ r rows, bodyRows false (s :: rest) = r :: rows ∧ r.closes = false ∧ r ≠ .noOp := by
  rw [bodyRows]
  cases s.tags.labels with
  | nil =>
      obtain ⟨r, rows, hrows, hcloses, hnoOp, -⟩ := exists_statementRows_eq_cons h rest.isEmpty
      rw [hrows]
      exact ⟨r, _, rfl, hcloses, hnoOp⟩
  | cons name names => exact ⟨.label name, _, rfl, rfl, by rintro ⟨⟩⟩

lemma not_endsBody_bodyRows {s : Statement} (h : s.IsOutline) (rest : Body) (rows : List Row) :
    ¬EndsBody (bodyRows false (s :: rest) ++ rows) := by
  intro hends
  obtain ⟨r, more, hrows, hcloses, -⟩ := exists_bodyRows_eq_cons h rest
  rw [hrows] at hends
  have hclosed := hends r _ rfl
  rw [hcloses] at hclosed
  cases hclosed

lemma followsLabel_bodyRows {body : Body} (h : ∀ s ∈ body, s.IsOutline)
    (hne : body.isEmpty = false) (rows : List Row) :
    FollowsLabel (bodyRows false body ++ rows) := by
  intro rest heq
  cases body with
  | nil => cases hne
  | cons s body =>
      obtain ⟨r, more, hrows, -, hnoOp⟩ := exists_bodyRows_eq_cons (h s List.mem_cons_self) body
      rw [hrows] at heq
      exact hnoOp (List.cons.inj heq).1

lemma endsBody_close (rows : List Row) : EndsBody ([.close] ++ rows) := by
  intro r rest heq
  rw [← (List.cons.inj heq).1]
  rfl

/-- A second branch is empty, a choice in the line that closes the first branch, or a block. -/
lemma elseRows_cases (no : Body) :
    (no = [] ∧ elseRows no = .close :: []) ∨
      (∃ s c rows, no = [s] ∧ s.tags.labels = [] ∧ elseRows no = statementRows true true s ∧
        elseRows no = .choice true c :: rows) ∨
      elseRows no = .otherwise :: (bodyRows false no ++ [.close]) := by
  by_cases hjoined : Body.isJoined no = true
  · right
    left
    match no with
    | [] => cases hjoined
    | [.simple tags a] => cases hjoined
    | [.loop tags code body] => cases hjoined
    | [.choice tags c yes no] =>
        have hlabels : tags.labels = [] := List.isEmpty_iff.mp hjoined
        have hrows : bodyRows true [.choice tags c yes no] =
            statementRows true true (.choice tags c yes no) := by
          rw [bodyRows, bodyRows, Statement.tags, hlabels, List.map_nil, List.nil_append,
            List.append_nil]
          rfl
        have helse : elseRows [.choice tags c yes no] = bodyRows true [.choice tags c yes no] :=
          if_pos hjoined
        rw [helse, hrows]
        exact ⟨_, c.text, _, rfl, hlabels, rfl, statementRows_choice ..⟩
    | _ :: _ :: _ => cases hjoined
  · cases no with
    | nil => exact Or.inl ⟨rfl, rfl⟩
    | cons s rest => exact Or.inr (Or.inr (if_neg hjoined))

/-- What follows the first branch of a choice closes it. -/
lemma endsBody_elseRows (no : Body) (rows : List Row) : EndsBody (elseRows no ++ rows) := by
  intro r rest heq
  rcases elseRows_cases no with ⟨-, hhead⟩ | ⟨s, c, more, -, -, -, hhead⟩ | hhead
  all_goals
    rw [hhead] at heq
    rw [← (List.cons.inj heq).1]
    rfl

/-- The labels in front of a statement end where its own rows begin. -/
lemma labels_append_inj {names₁ names₂ : List Text} {rows₁ rows₂ : List Row}
    (h₁ : ∀ name ∈ names₁, Label.isNumbered name = false)
    (h₂ : ∀ name ∈ names₂, Label.isNumbered name = false)
    (hr₁ : ∀ name rest, rows₁ = .label name :: rest → Label.isNumbered name = true)
    (hr₂ : ∀ name rest, rows₂ = .label name :: rest → Label.isNumbered name = true)
    (h : names₁.map Row.label ++ rows₁ = names₂.map Row.label ++ rows₂) :
    names₁ = names₂ ∧ rows₁ = rows₂ := by
  induction names₁ generalizing names₂ with
  | nil =>
      cases names₂ with
      | nil => exact ⟨rfl, h⟩
      | cons name names =>
          have hnumbered := hr₁ name _ h
          rw [h₂ name List.mem_cons_self] at hnumbered
          cases hnumbered
  | cons name names ih =>
      obtain ⟨hname, hnames⟩ := List.forall_mem_cons.mp h₁
      cases names₂ with
      | nil =>
          have hnumbered := hr₂ name _ h.symm
          rw [hname] at hnumbered
          cases hnumbered
      | cons name' names' =>
          obtain ⟨hhead, htail⟩ := List.cons.inj h
          obtain ⟨rfl, hrows⟩ := ih hnames (List.forall_mem_cons.mp h₂).2 htail
          exact ⟨by rw [Row.label.inj hhead], hrows⟩

/-! ### Statements are determined by their rows -/

/-- A statement that is determined by its rows, and so are the rows behind it. A label at the end of
a body has a further row, which does not follow a label that is not at the end. -/
def Determined (s₁ : Statement) : Prop :=
  ∀ (s₂ : Statement) (joined isLast₁ isLast₂ : Bool) (rows₁ rows₂ : List Row), s₂.IsOutline →
    s₁.tags.labels = s₂.tags.labels →
    (isLast₁ = false → FollowsLabel rows₁) → (isLast₂ = false → FollowsLabel rows₂) →
    statementRows joined isLast₁ s₁ ++ rows₁ = statementRows joined isLast₂ s₂ ++ rows₂ →
    s₁.bare = s₂.bare ∧ rows₁ = rows₂

/-- The rows of a body end where a block is closed. -/
lemma bodyRows_append_inj {b₁ b₂ : Body} (h : ∀ s ∈ b₁, Determined s)
    (h₁ : ∀ s ∈ b₁, s.IsOutline) (h₂ : ∀ s ∈ b₂, s.IsOutline) {rows₁ rows₂ : List Row}
    (hends₁ : EndsBody rows₁) (hends₂ : EndsBody rows₂)
    (heq : bodyRows false b₁ ++ rows₁ = bodyRows false b₂ ++ rows₂) :
    Body.bare b₁ = Body.bare b₂ ∧ rows₁ = rows₂ := by
  induction b₁ generalizing b₂ with
  | nil =>
      cases b₂ with
      | nil => exact ⟨rfl, heq⟩
      | cons s₂ rest₂ =>
          rw [bodyRows, List.nil_append] at heq
          rw [heq] at hends₁
          exact absurd hends₁ (not_endsBody_bodyRows (h₂ s₂ List.mem_cons_self) rest₂ rows₂)
  | cons s₁ rest₁ ih =>
      obtain ⟨hs₁, hrest₁⟩ := List.forall_mem_cons.mp h₁
      cases b₂ with
      | nil =>
          rw [bodyRows.eq_1, List.nil_append] at heq
          rw [← heq] at hends₂
          exact absurd hends₂ (not_endsBody_bodyRows hs₁ rest₁ rows₁)
      | cons s₂ rest₂ =>
          obtain ⟨hs₂, hrest₂⟩ := List.forall_mem_cons.mp h₂
          obtain ⟨hdetermined, hrest⟩ := List.forall_mem_cons.mp h
          rw [bodyRows, bodyRows, List.append_assoc, List.append_assoc, List.append_assoc,
            List.append_assoc] at heq
          obtain ⟨hlabels, hstatements⟩ := labels_append_inj
            (fun name hname => (hs₁.tags.labels name hname).2)
            (fun name hname => (hs₂.tags.labels name hname).2)
            (fun name rest => isNumbered_of_statementRows hs₁)
            (fun name rest => isNumbered_of_statementRows hs₂) heq
          obtain ⟨hs, hbodies⟩ := hdetermined s₂ false _ _ _ _ hs₂ hlabels
            (fun hne => followsLabel_bodyRows hrest₁ hne rows₁)
            (fun hne => followsLabel_bodyRows hrest₂ hne rows₂) hstatements
          obtain ⟨hbare, hrows⟩ := ih hrest hrest₁ hrest₂ hbodies
          exact ⟨by rw [Body.bare, Body.bare, hs, hbare], hrows⟩

/-- What follows the first branch of a choice tells the second one. -/
lemma elseRows_append_inj {no₁ no₂ : Body} (h : ∀ s ∈ no₁, Determined s)
    (h₁ : ∀ s ∈ no₁, s.IsOutline) (h₂ : ∀ s ∈ no₂, s.IsOutline) {rows₁ rows₂ : List Row}
    (heq : elseRows no₁ ++ rows₁ = elseRows no₂ ++ rows₂) :
    Body.bare no₁ = Body.bare no₂ ∧ rows₁ = rows₂ := by
  rcases elseRows_cases no₁ with ⟨rfl, hhead₁⟩ | ⟨s₁, c₁, more₁, rfl, hlabels₁, hs₁, hhead₁⟩ |
      hhead₁ <;>
    rcases elseRows_cases no₂ with ⟨rfl, hhead₂⟩ | ⟨s₂, c₂, more₂, rfl, hlabels₂, hs₂, hhead₂⟩ |
      hhead₂
  case inl.inl =>
    exact ⟨rfl, List.append_cancel_left heq⟩
  case inr.inl.inr.inl =>
    rw [hs₁, hs₂] at heq
    obtain ⟨hbare, hrows⟩ := h s₁ List.mem_cons_self s₂ true true true rows₁ rows₂
      (h₂ s₂ List.mem_cons_self) (by rw [hlabels₁, hlabels₂]) nofun nofun heq
    exact ⟨by rw [Body.bare, Body.bare, hbare]; rfl, hrows⟩
  case inr.inr.inr.inr =>
    rw [hhead₁, hhead₂, List.cons_append, List.cons_append, List.append_assoc,
      List.append_assoc] at heq
    obtain ⟨hbare, hrows⟩ := bodyRows_append_inj h h₁ h₂ (endsBody_close rows₁)
      (endsBody_close rows₂) (List.cons.inj heq).2
    exact ⟨hbare, List.append_cancel_left hrows⟩
  -- in all other cases the first rows differ
  all_goals
    rw [hhead₁, hhead₂] at heq
    cases (List.cons.inj heq).1

lemma determined_command {tags : Tags} {c : Command} (ht : tags.IsPlain) (hc : c.IsPlain) :
    Determined (.simple tags (.command c)) := by
  intro s₂ joined isLast₁ isLast₂ rows₁ rows₂ h₂ hlabels hfollows₁ hfollows₂ heq
  cases h₂ with
  | command ht₂ hc₂ =>
      obtain ⟨hhead, hrows⟩ := List.cons.inj heq
      refine ⟨?_, hrows⟩
      rw [Statement.bare, Statement.bare, ht.bare_eq ht₂ hlabels, Action.bare, Action.bare,
        hc.bare_eq hc₂ (Row.action.inj hhead)]
  | label number ht₂ => cases (List.cons.inj heq).1
  | loop ht₂ hx hbody => cases (List.cons.inj heq).1
  | choice negated ht₂ hq hyes hno => cases (List.cons.inj heq).1

/-- A label is determined, whether it is given something to stand at or not. -/
lemma determined_label {tags : Tags} (number : Nat) (ht : tags.IsPlain) :
    Determined (.simple tags (.label number)) := by
  intro s₂ joined isLast₁ isLast₂ rows₁ rows₂ h₂ hlabels hfollows₁ hfollows₂ heq
  cases h₂ with
  | label number₂ ht₂ =>
      obtain ⟨hhead, hbehind⟩ := List.cons.inj heq
      have hnumber : number = number₂ :=
        Text.ofNat_injective (List.cons.inj (Row.label.inj hhead)).2
      have hrows : rows₁ = rows₂ := by
        cases isLast₁ <;> cases isLast₂
        case false.false => exact hbehind
        case false.true => exact absurd hbehind (hfollows₁ rfl rows₂)
        case true.false => exact absurd hbehind.symm (hfollows₂ rfl rows₁)
        case true.true => exact (List.cons.inj hbehind).2
      refine ⟨?_, hrows⟩
      rw [Statement.bare, Statement.bare, ht.bare_eq ht₂ hlabels, hnumber]
  | command ht₂ hc => cases (List.cons.inj heq).1
  | loop ht₂ hx hbody => cases (List.cons.inj heq).1
  | choice negated ht₂ hq hyes hno => cases (List.cons.inj heq).1

lemma determined_loop {tags : Tags} {x : Text} {body : Body} (ht : tags.IsPlain)
    (hbody : ∀ s ∈ body, s.IsOutline) (h : ∀ s ∈ body, Determined s) :
    Determined (.loop tags (whileHead x) body) := by
  intro s₂ joined isLast₁ isLast₂ rows₁ rows₂ h₂ hlabels hfollows₁ hfollows₂ heq
  cases h₂ with
  | loop ht₂ hx₂ hbody₂ =>
      rw [statementRows, statementRows, List.cons_append, List.cons_append, List.append_assoc,
        List.append_assoc] at heq
      obtain ⟨hhead, hbehind⟩ := List.cons.inj heq
      obtain ⟨hbare, hrows⟩ := bodyRows_append_inj h hbody hbody₂ (endsBody_close rows₁)
        (endsBody_close rows₂) hbehind
      refine ⟨?_, List.append_cancel_left hrows⟩
      rw [Statement.bare, Statement.bare, ht.bare_eq ht₂ hlabels, Row.loop.inj hhead, hbare]
  | command ht₂ hc => cases (List.cons.inj heq).1
  | label number ht₂ => cases (List.cons.inj heq).1
  | choice negated ht₂ hq hyes hno => cases (List.cons.inj heq).1

lemma determined_choice {tags : Tags} {q : Query} {yes no : Body} (negated : Bool)
    (ht : tags.IsPlain) (hq : q.IsPlain) (hyes : ∀ s ∈ yes, s.IsOutline)
    (hno : ∀ s ∈ no, s.IsOutline) (h : ∀ s ∈ yes, Determined s) (helse : ∀ s ∈ no, Determined s) :
    Determined (.choice tags (.atom (.query q) negated []) yes no) := by
  intro s₂ joined isLast₁ isLast₂ rows₁ rows₂ h₂ hlabels hfollows₁ hfollows₂ heq
  cases h₂ with
  | choice negated₂ ht₂ hq₂ hyes₂ hno₂ =>
      rw [statementRows_choice, statementRows_choice, List.cons_append, List.cons_append,
        List.append_assoc, List.append_assoc] at heq
      obtain ⟨hhead, hbehind⟩ := List.cons.inj heq
      obtain ⟨rfl, rfl⟩ :=
        Condition.query_text_inj hq hq₂ negated negated₂ (Row.choice.inj hhead).2
      obtain ⟨hyesBare, hbehindYes⟩ := bodyRows_append_inj h hyes hyes₂ (endsBody_elseRows no rows₁)
        (endsBody_elseRows _ rows₂) hbehind
      obtain ⟨hnoBare, hrows⟩ := elseRows_append_inj helse hno hno₂ hbehindYes
      refine ⟨?_, hrows⟩
      rw [Statement.bare, Statement.bare, ht.bare_eq ht₂ hlabels, hyesBare, hnoBare]
  | command ht₂ hc => cases (List.cons.inj heq).1
  | label number ht₂ => cases (List.cons.inj heq).1
  | loop ht₂ hx hbody => cases (List.cons.inj heq).1

/-- **Every statement of an outline is determined by its rows.** -/
theorem determined_of_isOutline {s : Statement} (h : s.IsOutline) : Determined s := by
  induction h with
  | command ht hc => exact determined_command ht hc
  | label number ht => exact determined_label number ht
  | loop ht hx hbody ih => exact determined_loop ht hbody ih
  | choice negated ht hq hyes hno ihyes ihno =>
      exact determined_choice negated ht hq hyes hno ihyes ihno

/-- The rows of an outline determine it. -/
theorem bare_eq_of_bodyRows_eq {b₁ b₂ : Body} (h₁ : ∀ s ∈ b₁, s.IsOutline)
    (h₂ : ∀ s ∈ b₂, s.IsOutline) (h : bodyRows false b₁ = bodyRows false b₂) :
    Body.bare b₁ = Body.bare b₂ := by
  have hends : EndsBody [] := nofun
  have happend : bodyRows false b₁ ++ [] = bodyRows false b₂ ++ [] := by rw [h]
  exact (bodyRows_append_inj (fun s hs => determined_of_isOutline (h₁ s hs)) h₁ h₂ hends hends
    happend).1

/-! ### The text of an event -/

/-- The text of an event whose labels are not told apart: the lines of the body stand between texts
that do not depend on it. -/
lemma text_ofEvent_of_never {k : Settings} (hk : k.labelNaming = .never) (e : Event) (body : Body) :
    (ofEvent k { e with body := body }).text =
      (text (headerSection e) ++ openingLine e) ++
        ((bodyPieces (.ofSettings k) 1 [] false body).flatMap Piece.text ++
          (closingPieces (.ofSettings k) e).flatMap Piece.text) := by
  have hnaming : k.labelNaming.appliesTo e.id = false := by
    rw [hk]
    rfl
  have hdeclaration : (ofEvent k { e with body := body }) = headerSection e ++
      [⟨e.lines, declarationPieces (.ofSettings k) { e with body := body }⟩] := by
    rw [ofEvent, hnaming, if_neg Bool.false_ne_true]
    rfl
  have htext : (declarationPieces (.ofSettings k) { e with body := body }).flatMap Piece.text =
      openingLine e ++ ((bodyPieces (.ofSettings k) 1 [] false body).flatMap Piece.text ++
        (closingPieces (.ofSettings k) e).flatMap Piece.text) := by
    rw [declarationPieces, List.flatMap_cons, List.flatMap_append]
    rfl
  have hsection : text [⟨e.lines, declarationPieces (.ofSettings k) { e with body := body }⟩] =
      (declarationPieces (.ofSettings k) { e with body := body }).flatMap Piece.text :=
    List.flatMap_singleton ..
  rw [hdeclaration, text_append, hsection, htext, List.append_assoc]

end Listing

namespace Settings

/-- **Block structure is printed without ambiguity.** Outlines in the same event that are formatted
to the same text agree in all that is ever printed. -/
theorem bare_eq_of_format_eq {k : Settings} (hk : k.labelNaming = .never) {e : Event}
    {b₁ b₂ : Body} (h₁ : ∀ s ∈ b₁, s.IsOutline) (h₂ : ∀ s ∈ b₂, s.IsOutline) {f₁ f₂ : Formatted}
    (hf₁ : k.format [{ e with body := b₁ }] = .ok f₁)
    (hf₂ : k.format [{ e with body := b₂ }] = .ok f₂) (h : f₁.text = f₂.text) :
    Body.bare b₁ = Body.bare b₂ := by
  have htext₁ := (k.refusal?_of_format hf₁).2
  have htext₂ := (k.refusal?_of_format hf₂).2
  rw [Listing.text_ofEvent_of_never hk] at htext₁ htext₂
  rw [htext₁, htext₂] at h
  have hbody := List.append_cancel_right (List.append_cancel_left h)
  have hshown {body : Body} (hbody : ∀ s ∈ body, s.IsOutline) :
      Listing.Shows (Listing.bodyPieces (.ofSettings k) 1 [] false body)
        (Listing.bodyRows false body) :=
    Listing.shows_bodyPieces_of_shown (fun s hs => Listing.shown_of_isOutline (hbody s hs)) 1 false
      false nofun
  have hrows := (hshown h₁).rows_inj (hshown h₂) hbody
  exact Listing.bare_eq_of_bodyRows_eq h₁ h₂ hrows

/-- A labelled command, and a choice with a loop in its first branch, another choice for its second
one, and a label at the end of the loop. -/
def outlined (node : Option Nat) (id : Option CommandId) : Body := [
  .simple { node := node, labels := ["again".toList] }
    (.command ⟨id, "SetEventFlag".toList, [.int 10000, .int 1], none⟩),
  .choice {} (.atom (.query ⟨"InArea".toList, [.int (-1)]⟩) true [])
    [.loop {} (whileHead "x".toList) [.simple { node := node } (.label 0)]]
    [.choice {} (.atom (.query ⟨"InArea".toList, [.int 7]⟩) false []) [] []]]

lemma isOutline_outlined (node : Option Nat) (id : Option CommandId) :
    ∀ s ∈ outlined node id, s.IsOutline := by
  have hplain (node : Option Nat) : Tags.IsPlain { node := node } := ⟨nofun, rfl⟩
  have hagain : Tags.IsPlain { node := node, labels := ["again".toList] } :=
    ⟨List.forall_mem_singleton.mpr ⟨by decide, by decide⟩, rfl⟩
  have harguments : ∀ v ∈ [Value.int 10000, .int 1], ∃ n, v = .int n :=
    List.forall_mem_cons.mpr ⟨⟨_, rfl⟩, List.forall_mem_singleton.mpr ⟨_, rfl⟩⟩
  have hname : Text.isIdentifier "SetEventFlag".toList = true := by decide
  have hreserved : Keyword.isReserved "SetEventFlag".toList = false := by decide
  have hcommand : Command.IsPlain ⟨id, "SetEventFlag".toList, [.int 10000, .int 1], none⟩ :=
    ⟨⟨hname, harguments⟩, hreserved, rfl⟩
  have harea : Text.isIdentifier "InArea".toList = true := by decide
  have hquery (n : Int) : Query.IsPlain ⟨"InArea".toList, [.int n]⟩ :=
    ⟨harea, List.forall_mem_singleton.mpr ⟨n, rfl⟩⟩
  refine List.forall_mem_cons.mpr ⟨.command hagain hcommand, List.forall_mem_singleton.mpr ?_⟩
  refine .choice true (hplain none) (hquery (-1)) (List.forall_mem_singleton.mpr ?_)
    (List.forall_mem_singleton.mpr ?_)
  · exact .loop (hplain none) (by decide)
      (List.forall_mem_singleton.mpr (.label 0 (hplain node)))
  · exact .choice false (hplain none) (hquery 7) nofun nofun

/-- Nodes and the ids of commands cannot be told from the text. -/
theorem bare_eq_of_format_eq_outlined :
    ∃ f₁ f₂, ({ labelNaming := .never } : Settings).format
        [{ ({} : Event) with body := outlined none none }] = .ok f₁ ∧
      ({ labelNaming := .never } : Settings).format
        [{ ({} : Event) with body := outlined (some 4) (some ⟨2003, 2⟩) }] = .ok f₂ ∧
      f₁.text = f₂.text ∧
      Body.bare (outlined none none) = Body.bare (outlined (some 4) (some ⟨2003, 2⟩)) := by
  have hformat (node : Option Nat) (id : Option CommandId) :
      ∃ f, ({ labelNaming := .never } : Settings).format
        [{ ({} : Event) with body := outlined node id }] = .ok f := ⟨_, rfl⟩
  obtain ⟨f₁, hf₁⟩ := hformat none none
  obtain ⟨f₂, hf₂⟩ := hformat (some 4) (some ⟨2003, 2⟩)
  have htext : f₁.text = f₂.text := by
    rw [(refusal?_of_format _ hf₁).2, (refusal?_of_format _ hf₂).2]
    rfl
  exact ⟨f₁, f₂, hf₁, hf₂, htext, bare_eq_of_format_eq rfl (isOutline_outlined none none)
    (isOutline_outlined (some 4) (some ⟨2003, 2⟩)) hf₁ hf₂ htext⟩

end Settings

end EventScript
