import EventScript.Keyword
import EventScript.Proofs.Condition.Reading
import EventScript.Proofs.Listing.Row
import EventScript.Proofs.Listing.Spot

/-!
Outlines: bodies of commands, labels, loops and choices, and the rows in which they are printed.

* `Statement.IsOutline`: the statements of outlines, at any depth;
* `Query.IsPlain`, `Command.IsPlain`: the calls in them, which their texts determine
  (`Condition.query_text_inj`, `Command.IsPlain.text_inj`);
* `Listing.statementRows`, `Listing.bodyRows`, `Listing.elseRows`: the rows of statements, of bodies
  and of second branches;
* `Listing.shows_bodyPieces_of_shown`: the lines of an outline show its rows.
-/

namespace EventScript

/-! ### Plain calls -/

/-- A query with an identifier for its name and integers for its arguments. -/
structure Query.IsPlain (q : Query) : Prop where
  name : Text.isIdentifier q.name = true
  arguments : ∀ v ∈ q.arguments, ∃ n, v = .int n

/-- A command of the same form, whose name is no keyword, and without layers. -/
structure Command.IsPlain (c : Command) : Prop where
  query : (Query.mk c.name c.arguments).IsPlain
  notReserved : Keyword.isReserved c.name = false
  layers : c.layers = none

namespace Query.IsPlain

variable {q : Query}

lemma isSimple (h : q.IsPlain) : ∀ v ∈ q.arguments, v.isSimple = true := by
  intro v hv
  obtain ⟨n, rfl⟩ := h.arguments v hv
  rfl

lemma isReadable (h : q.IsPlain) (negated : Bool) :
    (Condition.atom (.query q) negated []).isReadable = true := by
  have hargs := List.all_eq_true.mpr h.isSimple
  simp [Condition.isReadable, Atom.isReadable, Query.isReadable, h.name, hargs]

/-- Of the characters that are not in words, only those of an argument list are in the text. -/
lemma notMem_text (h : q.IsPlain) : '\n' ∉ q.text := by
  have hname : '\n' ∉ q.name := (Text.isWord_of_isIdentifier h.name).notMem rfl
  have hargs : '\n' ∉ argumentsText q.arguments none := by
    refine Text.notMem_commaList (by decide) (by decide) fun t ht => ?_
    rw [Option.toList_none, List.map_nil, List.append_nil, List.mem_map] at ht
    obtain ⟨v, hv, rfl⟩ := ht
    exact (Value.isWord_text (h.isSimple v hv)).1.notMem rfl
  simp [Query.text, hname, hargs]

/-- The text begins with the name. -/
lemma exists_text_eq_cons (h : q.IsPlain) :
    ∃ c t, q.text = c :: t ∧ Text.isBlank c = false := by
  obtain ⟨c, t, hname, -, -, hword⟩ := Text.exists_of_isIdentifier h.name
  rw [hname] at hword
  refine ⟨c, t ++ ['('] ++ argumentsText q.arguments none ++ [')'], ?_,
    Text.isBlank_of_isWordChar (hword c List.mem_cons_self)⟩
  rw [Query.text, hname]
  simp

end Query.IsPlain

/-- **The text of a plain query determines the query and its negation.** -/
lemma Condition.query_text_inj {q₁ q₂ : Query} (h₁ : q₁.IsPlain) (h₂ : q₂.IsPlain) (n₁ n₂ : Bool)
    (h : (atom (.query q₁) n₁ []).text = (atom (.query q₂) n₂ []).text) : q₁ = q₂ ∧ n₁ = n₂ := by
  have hline (q : Query) (n : Bool) :
      ((atom (.query q) n []).layout true).oneLine = (atom (.query q) n []).text :=
    Layout.Tree.oneLine_leaf ..
  have hsqueeze : Text.squeeze ((atom (.query q₁) n₁ []).layout true).oneLine =
      Text.squeeze ((atom (.query q₂) n₂ []).layout true).oneLine := by
    rw [hline, hline, h]
  have hnormal := (squeeze_argument_eq_iff (h₁.isReadable n₁) (h₂.isReadable n₂)).mp hsqueeze
  simpa [normal] using hnormal

namespace Command.IsPlain

variable {c c₁ c₂ : Command}

/-- A plain command is a query with a semicolon behind it. -/
lemma text_eq (h : c.IsPlain) : c.text = (Query.mk c.name c.arguments).text ++ [';'] := by
  rw [Command.text, h.layers, Query.text]
  simp

/-- **The text of a plain command determines its name and its arguments.** -/
lemma text_inj (h₁ : c₁.IsPlain) (h₂ : c₂.IsPlain) (h : c₁.text = c₂.text) :
    c₁.name = c₂.name ∧ c₁.arguments = c₂.arguments := by
  rw [h₁.text_eq, h₂.text_eq] at h
  have hquery := Condition.query_text_inj h₁.query h₂.query false false
    (List.append_cancel_right h)
  simpa using hquery

/-- No plain command is printed as a statement that does nothing. -/
lemma text_ne_noOp (h : c.IsPlain) : c.text ≠ "NoOp();".toList := by
  intro heq
  have hplain : (Query.mk "NoOp".toList []).IsPlain := ⟨by decide, fun v hv => by cases hv⟩
  have hnoOp : "NoOp();".toList = (Query.mk "NoOp".toList []).text ++ [';'] := by decide
  rw [h.text_eq, hnoOp] at heq
  obtain ⟨hquery, -⟩ := Condition.query_text_inj h.query hplain false false
    (List.append_cancel_right heq)
  have hreserved := h.notReserved
  rw [(Query.mk.inj hquery).1] at hreserved
  revert hreserved
  decide

end Command.IsPlain

/-! ### Outlines -/

/-- Whether a name is an `L` with digits behind it, as that of a numbered label. -/
def Label.isNumbered : Text → Bool
  | 'L' :: t => (digits? t).isSome
  | _ => false

lemma Label.isNumbered_name (n : Nat) : isNumbered (name n) = true := by
  have hdigits : (Text.ofNat n).all Char.isDigit = true :=
    List.all_eq_true.mpr fun c hc => Text.isDigit_of_mem_ofNat hc
  rw [name, isNumbered, digits?, if_pos ⟨Text.ofNat_ne_nil n, hdigits⟩]
  rfl

/-- Tags without remarks, and with labels that cannot be taken for numbered ones. -/
structure Tags.IsPlain (tags : Tags) : Prop where
  labels : ∀ name ∈ tags.labels, Text.isIdentifier name = true ∧ Label.isNumbered name = false
  remarks : tags.remarks = []

/-- The head of a loop that goes on while a variable is set. -/
def whileHead (x : Text) : Text := "while (".toList ++ x ++ [')']

/-- A plain command, a numbered label, a loop, or a choice by a plain query, and nothing else in the
bodies nested in it. -/
inductive Statement.IsOutline : Statement → Prop
  | command {tags : Tags} {c : Command} (ht : tags.IsPlain) (hc : c.IsPlain) :
      IsOutline (.simple tags (.command c))
  | label {tags : Tags} (number : Nat) (ht : tags.IsPlain) :
      IsOutline (.simple tags (.label number))
  | loop {tags : Tags} {x : Text} {body : Body} (ht : tags.IsPlain)
      (hx : Text.isIdentifier x = true) (hbody : ∀ s ∈ body, IsOutline s) :
      IsOutline (.loop tags (whileHead x) body)
  | choice {tags : Tags} {q : Query} {yes no : Body} (negated : Bool) (ht : tags.IsPlain)
      (hq : q.IsPlain) (hyes : ∀ s ∈ yes, IsOutline s) (hno : ∀ s ∈ no, IsOutline s) :
      IsOutline (.choice tags (.atom (.query q) negated []) yes no)

lemma Statement.IsOutline.tags {s : Statement} (h : s.IsOutline) : s.tags.IsPlain := by
  cases h <;> assumption

namespace Listing

open Layout

/-! ### Rows of outlines -/

/-- The row of a statement that does nothing. -/
def Row.noOp : Row := .action "NoOp();".toList

/-- The rows of an action. A label at the end of its body is given something to stand at. -/
def actionRows (isLast : Bool) : Action → List Row
  | .label number => .label (Label.name number) :: if isLast then [.noOp] else []
  | a => [.action a.text]

mutual

/-- The rows of a statement behind its labels. It counts whether it goes on in the line that closes
another one, and whether it is the last of its body. -/
def statementRows (joined isLast : Bool) : Statement → List Row
  | .simple _ a => actionRows isLast a
  | .loop _ code body => .loop code :: (bodyRows false body ++ [.close])
  | .choice _ c yes no =>
    .choice joined c.text :: (bodyRows false yes ++
      if no.isEmpty then [.close]
      else if Body.isJoined no then bodyRows true no
      else .otherwise :: (bodyRows false no ++ [.close]))

/-- The rows of a body, of which the first statement may go on in the line that closes another
one. -/
def bodyRows (joined : Bool) : List Statement → List Row
  | [] => []
  | s :: rest =>
    s.tags.labels.map .label ++ (statementRows joined rest.isEmpty s ++ bodyRows false rest)

end

/-- What follows the first branch of a choice. -/
def elseRows (no : Body) : List Row :=
  if no.isEmpty then [.close]
  else if Body.isJoined no then bodyRows true no
  else .otherwise :: (bodyRows false no ++ [.close])

lemma statementRows_choice (joined isLast : Bool) (tags : Tags) (c : Condition) (yes no : Body) :
    statementRows joined isLast (.choice tags c yes no) =
      .choice joined c.text :: (bodyRows false yes ++ elseRows no) := by
  rw [statementRows, elseRows]

/-! ### Readable rows -/

namespace Row

lemma isReadable_noOp : noOp.IsReadable :=
  isReadable_action (by decide) ⟨'N', _, rfl, by decide⟩ (by decide)

lemma isReadable_identifier {name : Text} (h : Text.isIdentifier name = true) :
    (label name).IsReadable := by
  obtain ⟨c, t, hname, -, -, hword⟩ := Text.exists_of_isIdentifier h
  exact isReadable_label hword (by rw [hname]; exact List.cons_ne_nil c t)

lemma isReadable_number (n : Nat) : (label (Label.name n)).IsReadable := by
  refine isReadable_label (fun c hc => ?_) (List.cons_ne_nil _ _)
  rcases List.mem_cons.mp hc with rfl | hc
  · decide
  · exact Text.isWord_ofNat n c hc

lemma isReadable_command {c : Command} (h : c.IsPlain) : (action c.text).IsReadable := by
  obtain ⟨d, t, htext, hd⟩ := h.query.exists_text_eq_cons
  have hline : '\n' ∉ c.text := by
    rw [h.text_eq, List.mem_append]
    rintro (hmem | hmem)
    · exact h.query.notMem_text hmem
    · exact absurd (List.mem_singleton.mp hmem) (by decide)
  refine isReadable_action hline ⟨d, t ++ [';'], ?_, hd⟩ ?_
  · rw [h.text_eq, htext, List.cons_append]
  · rw [h.text_eq, List.getLast?_concat]

lemma isReadable_while {x : Text} (h : Text.isIdentifier x = true) :
    (loop (whileHead x)).IsReadable :=
  isReadable_loop ((Text.isWord_of_isIdentifier h).notMem rfl)

lemma isReadable_query (joined : Bool) {q : Query} (h : q.IsPlain) (negated : Bool) :
    (choice joined (Condition.atom (.query q) negated []).text).IsReadable := by
  refine isReadable_choice joined ?_
  have hmark : '\n' ∉ negationMark negated := by cases negated <;> decide
  rw [Condition.text, Atom.text, List.mem_append]
  rintro (hmem | hmem)
  · exact hmark hmem
  · exact h.notMem_text hmem

end Row

/-! ### The lines of outlines -/

section

variable {k : Settings}

/-- The pieces of a statement show its rows. -/
def Shown (k : Settings) (s : Statement) : Prop :=
  ∀ (depth : Nat) (joined afterLabel isLast : Bool), (joined = true → s.isChoice = true) →
    Shows (statementPieces (.ofSettings k) depth (elseMark joined) afterLabel isLast s)
      (s.tags.labels.map .label ++ statementRows joined isLast s)

/-- A declared label shows its row. -/
lemma Shows.label {name : Text} {ps : List Piece} {rows : List Row}
    (hr : (Row.label name).IsReadable) (h : Shows ps rows) :
    Shows (.label name [] :: ps) (.label name :: rows) :=
  .row hr 0 (by simp [Piece.text, Row.text]) h

/-- A line at an indent shows its row. -/
lemma Shows.line {r : Row} {ps : List Piece} {rows : List Row} (hr : r.IsReadable) (depth : Nat)
    (source : Option LineMap) (h : Shows ps rows) :
    Shows (.run source ((Page.ofSettings k).indentAt depth ++ r.text ++ ['\n']) :: ps)
      (r :: rows) :=
  .row hr (depth * k.indentWidth) (by rw [Piece.text, Page.indentAt_ofSettings]) h

/-- The head of a statement shows a row if it is printed as this row. -/
lemma Shows.head {r : Row} {s : Statement} {ps : List Piece} {rows : List Row} {before : Text}
    {depth : Nat} (hr : r.IsReadable) (hs : s.tags.remarks = [])
    (htext : s.layout.renderLine (.ofSettings k) ((Page.ofSettings k).indentAt depth) before [] =
      (Page.ofSettings k).indentAt depth ++ r.text ++ ['\n']) (h : Shows ps rows) :
    Shows (headPiece (.ofSettings k) ((Page.ofSettings k).indentAt depth) before s :: ps)
      (r :: rows) := by
  rw [headPiece, hs, Remark.suffix_nil, htext]
  exact Shows.line hr depth _ h

lemma Shows.closing (depth : Nat) :
    Shows [Listing.closing ((Page.ofSettings k).indentAt depth)] [.close] := by
  have htext : (Page.ofSettings k).indentAt depth ++ (Text.blockClose ++ ['\n']) =
      (Page.ofSettings k).indentAt depth ++ Row.close.text ++ ['\n'] := by
    simp [Row.text]
  rw [Listing.closing, htext]
  exact Shows.line Row.isReadable_close depth none .nil

lemma Shows.dividing (depth : Nat) {ps : List Piece} {rows : List Row} (h : Shows ps rows) :
    Shows (Listing.dividing ((Page.ofSettings k).indentAt depth) :: ps) (.otherwise :: rows) := by
  have htext : (Page.ofSettings k).indentAt depth ++ (Text.blockElse ++ ['{', '\n']) =
      (Page.ofSettings k).indentAt depth ++ Row.otherwise.text ++ ['\n'] := by
    simp [Row.text, elseMark]
  rw [Listing.dividing, htext]
  exact Shows.line Row.isReadable_otherwise depth none h

/-- Labels in front of a statement. -/
lemma shows_leadPieces (sp : Text) {tags : Tags} (h : tags.IsPlain) :
    Shows (leadPieces sp tags) (tags.labels.map .label) := by
  have hnames := h.labels
  rw [leadPieces, h.remarks, remarkLines, Remark.linesAbove, List.filter_nil, List.map_nil,
    List.map_nil, List.nil_append]
  generalize tags.labels = names at hnames
  induction names with
  | nil => exact .nil
  | cons name names ih =>
      obtain ⟨⟨hname, -⟩, hnames⟩ := List.forall_mem_cons.mp hnames
      exact Shows.label (Row.isReadable_identifier hname) (ih hnames)

/-- The lines of a body whose statements show their rows. -/
lemma shows_bodyPieces_of_shown {body : Body} (h : ∀ s ∈ body, Shown k s) (depth : Nat)
    (joined afterLabel : Bool) (hjoined : joined = true → Body.isJoined body = true) :
    Shows (bodyPieces (.ofSettings k) depth (elseMark joined) afterLabel body)
      (bodyRows joined body) := by
  induction body generalizing joined afterLabel with
  | nil =>
      rw [bodyPieces, bodyRows]
      exact .nil
  | cons s rest ih =>
      obtain ⟨hs, hrest⟩ := List.forall_mem_cons.mp h
      have hchoice : joined = true → s.isChoice = true := by
        intro hj
        have hbody := hjoined hj
        cases rest with
        | nil => exact (Bool.and_eq_true_iff.mp hbody).1
        | cons t rest => cases hbody
      have hfurther := ih hrest false s.isLabel (absurd · Bool.false_ne_true)
      rw [bodyPieces, bodyRows, ← List.append_assoc]
      exact (hs depth joined afterLabel rest.isEmpty hchoice).append hfurther

/-- The lines of a nested body, none of them behind the head of the statement it stands in. -/
lemma shows_nestedPieces {body : Body} (h : ∀ s ∈ body, Shown k s) (depth : Nat) :
    Shows (bodyPieces (.ofSettings k) depth [] false body) (bodyRows false body) :=
  shows_bodyPieces_of_shown h depth false false (absurd · Bool.false_ne_true)

/-- The lines that follow the first branch of a choice. -/
lemma shows_elsePieces {no : Body} (h : ∀ s ∈ no, Shown k s) (depth : Nat) :
    Shows (elsePieces (.ofSettings k) depth no) (elseRows no) := by
  cases no with
  | nil => exact Shows.closing depth
  | cons s rest =>
      have hne : ¬(s :: rest).isEmpty = true := Bool.false_ne_true
      rw [elsePieces_cons, elseRows, if_neg hne]
      split
      · next hbody => exact shows_bodyPieces_of_shown h depth true false fun _ => hbody
      · exact Shows.dividing depth
          ((shows_nestedPieces h (depth + 1)).append (Shows.closing depth))

/-- **The lines of an outline show its rows.** -/
theorem shown_of_isOutline {s : Statement} (h : s.IsOutline) : Shown k s := by
  induction h with
  | @command tags c ht hc =>
      intro depth joined afterLabel isLast hchoice
      obtain rfl : joined = false := Bool.eq_false_iff.mpr fun hj => by cases hchoice hj
      refine (shows_leadPieces _ ht).append ?_
      exact Shows.head (Row.isReadable_command hc) ht.remarks (Tree.renderLine_leaf ..) .nil
  | @label tags number ht =>
      intro depth joined afterLabel isLast hchoice
      have hlast : Shows
          (if isLast then
            [.plain ((Page.ofSettings k).indentAt depth ++ "NoOp();\n".toList)] else [])
          (if isLast then [Row.noOp] else []) := by
        have htext : (Page.ofSettings k).indentAt depth ++ "NoOp();\n".toList =
            (Page.ofSettings k).indentAt depth ++ Row.noOp.text ++ ['\n'] := by
          simp [Row.noOp, Row.text]
        split
        · rw [htext]
          exact Shows.line Row.isReadable_noOp depth none .nil
        · exact .nil
      rw [statementPieces, actionPieces_label, ht.remarks, Remark.suffix_nil]
      refine (shows_leadPieces _ ht).append (.empty _ ?_)
      exact Shows.label (Row.isReadable_number number) hlast
  | @loop tags x body ht hx hbody ih =>
      intro depth joined afterLabel isLast hchoice
      obtain rfl : joined = false := Bool.eq_false_iff.mpr fun hj => by cases hchoice hj
      have hlines := shows_nestedPieces ih (depth + 1)
      rw [statementPieces, statementRows]
      refine (shows_leadPieces _ ht).append ?_
      exact Shows.head (Row.isReadable_while hx) ht.remarks (Tree.renderLine_leaf ..)
        (hlines.append (Shows.closing depth))
  | @choice tags q yes no negated ht hq hyes hno ihyes ihno =>
      intro depth joined afterLabel isLast hchoice
      have hlines := shows_nestedPieces ihyes (depth + 1)
      rw [statementPieces_choice, statementRows_choice]
      refine (shows_leadPieces _ ht).append ?_
      exact Shows.head (Row.isReadable_query joined hq negated) ht.remarks
        (Tree.renderLine_between_leaf ..) (hlines.append (shows_elsePieces ihno depth))

end

end Listing

end EventScript
