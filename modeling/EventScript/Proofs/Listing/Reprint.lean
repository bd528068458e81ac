import EventScript.Proofs.Listing.Spot
import EventScript.Proofs.Statement.Shell

/-!
One statement printed in the place of another.

Where a statement is replaced by one with the same tags, bodies and kind, only its own line is
printed anew: what stands in front of it and behind it stays as it is, at every depth and in every
branch, and so do the names under which labels are declared.

* `Listing.Reprints`: two lists of pieces that differ in the line of one statement;
* `Listing.reprints_modify`: the pieces of a body with a statement replaced at a position;
* `Listing.text_ofEvent_modify_iff`: the text of the event is the same exactly if that line is.
-/

namespace EventScript

namespace Listing

open Layout

/-! ### Pieces that differ in one line -/

/-- Two lists of pieces are the same but for a line, which is that of `s` in the one and that of `t`
in the other. -/
def Reprints (p : Page) (s t : Statement) (pieces pieces' : List Piece) : Prop :=
  ∃ front back depth before,
    pieces = front ++ headPiece p (p.indentAt depth) before s :: back ∧
      pieces' = front ++ headPiece p (p.indentAt depth) before t :: back

/-- Pieces that are told apart, one behind the other: the ones in front give names away. -/
lemma exists_tellApart_append (used : List Text) (ps : List Piece) :
    ∃ used', ∀ qs, tellApart used (ps ++ qs) = tellApart used ps ++ tellApart used' qs := by
  induction ps generalizing used with
  | nil => exact ⟨used, fun qs => rfl⟩
  | cons q ps ih =>
      cases q with
      | run source u =>
          obtain ⟨used', h⟩ := ih used
          refine ⟨used', fun qs => ?_⟩
          rw [List.cons_append, tellApart, tellApart, h, List.cons_append]
      | label name suffix =>
          obtain ⟨used', h⟩ := ih (newName used name :: used)
          refine ⟨used', fun qs => ?_⟩
          rw [List.cons_append, tellApart, tellApart, h, List.cons_append]

namespace Reprints

variable {p : Page} {s t : Statement} {pieces pieces' : List Piece}

lemma head (p : Page) (s t : Statement) (depth : Nat) (before : Text) :
    Reprints p s t [headPiece p (p.indentAt depth) before s]
      [headPiece p (p.indentAt depth) before t] :=
  ⟨[], [], depth, before, rfl, rfl⟩

lemma behind (h : Reprints p s t pieces pieces') (more : List Piece) :
    Reprints p s t (more ++ pieces) (more ++ pieces') := by
  obtain ⟨front, back, depth, before, rfl, rfl⟩ := h
  exact ⟨more ++ front, back, depth, before, by simp, by simp⟩

lemma inFront (h : Reprints p s t pieces pieces') (more : List Piece) :
    Reprints p s t (pieces ++ more) (pieces' ++ more) := by
  obtain ⟨front, back, depth, before, rfl, rfl⟩ := h
  exact ⟨front, back ++ more, depth, before, by simp, by simp⟩

lemma cons (h : Reprints p s t pieces pieces') (x : Piece) :
    Reprints p s t (x :: pieces) (x :: pieces') :=
  h.behind [x]

/-- The line declares no label, so all names are given away as before. -/
lemma tellApart (h : Reprints p s t pieces pieces') (used : List Text) :
    Reprints p s t (Listing.tellApart used pieces) (Listing.tellApart used pieces') := by
  obtain ⟨front, back, depth, before, rfl, rfl⟩ := h
  obtain ⟨used', htell⟩ := exists_tellApart_append used front
  refine ⟨Listing.tellApart used front, Listing.tellApart used' back, depth, before, ?_, ?_⟩
  · rw [htell, headPiece, Listing.tellApart]
  · rw [htell, headPiece, Listing.tellApart]

/-- The texts are the same exactly if the line is. -/
lemma text_eq_iff (h : Reprints p s t pieces pieces') {same : Prop}
    (hhead : ∀ depth before, (headPiece p (p.indentAt depth) before t).text =
      (headPiece p (p.indentAt depth) before s).text ↔ same) :
    pieces'.flatMap Piece.text = pieces.flatMap Piece.text ↔ same := by
  obtain ⟨front, back, depth, before, rfl, rfl⟩ := h
  rw [List.flatMap_append, List.flatMap_append, List.append_cancel_left_eq, List.flatMap_cons,
    List.flatMap_cons, List.append_cancel_right_eq]
  exact hhead depth before

end Reprints

end Listing

/-! ### A statement replaced -/

/-- A statement that is printed as `s` is, but for its own line. -/
structure Statement.Reprints (s t : Statement) : Prop where
  tags : t.tags = s.tags
  isLabel : t.isLabel = s.isLabel
  isChoice : t.isChoice = s.isChoice
  pieces : ∀ (p : Layout.Page) (depth : Nat) (before : Text) (afterLabel isLast : Bool),
    Listing.Reprints p s t (Listing.statementPieces p depth before afterLabel isLast s)
      (Listing.statementPieces p depth before afterLabel isLast t)

/-- Another condition changes nothing but the line of a statement that has one. -/
lemma Statement.reprints_mapCondition {s : Statement} {c : Condition} (hc : s.condition? = some c)
    (f : Condition → Condition) : s.Reprints (s.mapCondition f) := by
  cases s with
  | simple tags a =>
      -- every action with a condition is printed on a line of its own
      have hpieces : ∀ p depth before afterLabel isLast,
          Listing.actionPieces p depth before afterLabel isLast tags a =
            [Listing.headPiece p (p.indentAt depth) before (.simple tags a)] ∧
          Listing.actionPieces p depth before afterLabel isLast tags (a.mapCondition f) =
            [Listing.headPiece p (p.indentAt depth) before (.simple tags (a.mapCondition f))] := by
        intro p depth before afterLabel isLast
        cases a with
        | finish ending d => exact ⟨rfl, rfl⟩
        | assign group variableName op d => exact ⟨rfl, rfl⟩
        | jump target d => exact ⟨rfl, rfl⟩
        | wait d isSpecial => exact ⟨rfl, rfl⟩
        | _ => cases hc
      refine ⟨rfl, ?_, rfl, fun p depth before afterLabel isLast => ?_⟩
      · cases a with
        | label number => cases hc
        | _ => rfl
      · obtain ⟨hold, hnew⟩ := hpieces p depth before afterLabel isLast
        rw [mapCondition, Listing.statementPieces, Listing.statementPieces, hold, hnew]
        exact (Listing.Reprints.head p _ _ depth before).behind _
  | loop tags code body => cases hc
  | choice tags d yes no =>
      refine ⟨rfl, rfl, rfl, fun p depth before afterLabel isLast => ?_⟩
      rw [mapCondition, Listing.statementPieces_choice, Listing.statementPieces_choice]
      exact ((Listing.Reprints.head p _ _ depth before).inFront _).behind _

namespace Body

/-- A body is empty with a statement changed if it was. -/
lemma isEmpty_listModify (f : Statement → Statement) (index : Nat) (body : Body) :
    (List.modify body index f).isEmpty = body.isEmpty := by
  cases body with
  | nil => rw [List.modify_nil]
  | cons s rest => cases index <;> rfl

/-- A change that keeps tags and kinds keeps whether a branch goes on in the line before. -/
lemma isJoined_listModify {f : Statement → Statement} {index : Nat} {body : Body} {s : Statement}
    (hs : body[index]? = some s) (htags : (f s).tags = s.tags)
    (hchoice : (f s).isChoice = s.isChoice) :
    isJoined (List.modify body index f) = isJoined body := by
  cases body with
  | nil => rw [List.modify_nil]
  | cons t rest =>
      cases index with
      | zero =>
          obtain rfl := Option.some.inj hs
          rw [List.modify_zero_cons, isJoined_cons, isJoined_cons, htags, hchoice]
      | succ index => rw [List.modify_succ_cons, isJoined_cons, isJoined_cons, isEmpty_listModify]

end Body

/-- A statement changed at a position keeps whether a branch goes on in the line before. -/
lemma Body.isJoined_modify {f : Statement → Statement} {q : Position} {body : Body} {s : Statement}
    (hs : get? body q = some s) (h : s.Reprints (f s)) :
    isJoined (modify f q body) = isJoined body := by
  cases q with
  | here index => exact isJoined_listModify hs h.tags h.isChoice
  | inside index branch rest =>
      obtain ⟨u, hu, -⟩ := Option.bind_eq_some_iff.mp hs
      refine isJoined_listModify hu ?_ ?_
      · rw [← Statement.tags_shell, Statement.shell_mapBranch, Statement.tags_shell]
      · rw [← Statement.isChoice_shell, Statement.shell_mapBranch, Statement.isChoice_shell]

namespace Listing

open Layout

variable {p : Page} {s t : Statement}

/-- The pieces of a body, if those of the statement at an index are reprinted. -/
lemma reprints_bodyPieces {body : Body} {index : Nat} {u : Statement} (hu : body[index]? = some u)
    {f : Statement → Statement} (hlabel : (f u).isLabel = u.isLabel) {depth : Nat}
    (hpieces : ∀ before afterLabel isLast,
      Reprints p s t (statementPieces p depth before afterLabel isLast u)
        (statementPieces p depth before afterLabel isLast (f u)))
    (before : Text) (afterLabel : Bool) :
    Reprints p s t (bodyPieces p depth before afterLabel body)
      (bodyPieces p depth before afterLabel (List.modify body index f)) := by
  induction body generalizing index before afterLabel with
  | nil => cases hu
  | cons v rest ih =>
      cases index with
      | zero =>
          obtain rfl := Option.some.inj hu
          rw [List.modify_zero_cons, bodyPieces, bodyPieces, hlabel]
          exact (hpieces before afterLabel rest.isEmpty).inFront _
      | succ index =>
          rw [List.modify_succ_cons, bodyPieces, bodyPieces, Body.isEmpty_listModify]
          exact (ih hu [] v.isLabel).behind _

/-- What follows the first branch of a choice, if the second one is reprinted. -/
lemma reprints_elsePieces {depth : Nat} {no no' : Body}
    (hjoined : Body.isJoined no' = Body.isJoined no) (hne : no ≠ []) (hne' : no' ≠ [])
    (h : ∀ depth before, Reprints p s t (bodyPieces p depth before false no)
      (bodyPieces p depth before false no')) :
    Reprints p s t (elsePieces p depth no) (elsePieces p depth no') := by
  obtain ⟨u, rest, rfl⟩ := List.exists_cons_of_ne_nil hne
  obtain ⟨u', rest', rfl⟩ := List.exists_cons_of_ne_nil hne'
  rw [elsePieces_cons, elsePieces_cons, hjoined]
  split
  · exact h depth Text.blockElse
  · exact ((h (depth + 1) []).inFront _).cons _

/-- **A statement replaced at a position**: the pieces of the body differ in its line alone. -/
theorem reprints_modify {f : Statement → Statement} (h : s.Reprints (f s)) {q : Position}
    {body : Body} (hs : Body.get? body q = some s) (depth : Nat) (before : Text)
    (afterLabel : Bool) :
    Reprints p s (f s) (bodyPieces p depth before afterLabel body)
      (bodyPieces p depth before afterLabel (Body.modify f q body)) := by
  induction q generalizing body depth before afterLabel with
  | here index => exact reprints_bodyPieces hs h.isLabel (h.pieces p depth) before afterLabel
  | inside index branch r ih =>
      rw [Body.get?] at hs
      obtain ⟨u, hu, hs⟩ := Option.bind_eq_some_iff.mp hs
      obtain ⟨inner, hinner, hs⟩ := Option.bind_eq_some_iff.mp hs
      have hlabel : (u.mapBranch (Body.modify f r) branch).isLabel = u.isLabel := by
        rw [← Statement.isLabel_shell, Statement.shell_mapBranch, Statement.isLabel_shell]
      refine reprints_bodyPieces hu hlabel ?_ before afterLabel
      intro before afterLabel isLast
      have hbody := ih hs
      cases u with
      | simple tags a => cases hinner
      | loop tags code body =>
          cases branch with
          | zero =>
              obtain rfl := Option.some.inj hinner
              rw [Statement.mapBranch, statementPieces, statementPieces]
              exact (((hbody (depth + 1) [] false).inFront _).cons _).behind _
          | succ branch => cases hinner
      | choice tags c yes no =>
          obtain _ | _ | branch := branch
          · obtain rfl := Option.some.inj hinner
            rw [Statement.mapBranch, statementPieces_choice, statementPieces_choice]
            exact (((hbody (depth + 1) [] false).inFront _).cons _).behind _
          · obtain rfl := Option.some.inj hinner
            have hne : no ≠ [] := by
              rintro rfl
              cases r <;> cases hs
            have hne' : Body.modify f r no ≠ [] := by
              intro hnil
              have hget := Body.get?_modify f r no
              rw [hnil, hs] at hget
              cases r <;> cases hget
            rw [Statement.mapBranch, statementPieces_choice, statementPieces_choice]
            refine (((reprints_elsePieces (Body.isJoined_modify hs h) hne hne' ?_).behind _).cons
              _).behind _
            exact fun depth before => hbody depth before false
          · cases hinner

/-- **The text of an event with a statement replaced** is the same exactly if the line of the
statement is. -/
theorem text_ofEvent_modify_iff (k : Settings) {e : Event} {q : Position} (hs : e.get? q = some s)
    {f : Statement → Statement} (h : s.Reprints (f s)) {same : Prop}
    (hhead : ∀ depth before,
      (headPiece (.ofSettings k) ((Page.ofSettings k).indentAt depth) before (f s)).text =
        (headPiece (.ofSettings k) ((Page.ofSettings k).indentAt depth) before s).text ↔ same) :
    (ofEvent k (e.modify f q)).text = (ofEvent k e).text ↔ same := by
  have hpieces : Reprints (.ofSettings k) s (f s) (declarationPieces (.ofSettings k) e)
      (declarationPieces (.ofSettings k) (e.modify f q)) :=
    ((reprints_modify h hs 1 [] false).inFront _).cons _
  have hdeclared : Reprints (.ofSettings k) s (f s)
      (if k.labelNaming.appliesTo e.id then tellApart [] (declarationPieces (.ofSettings k) e)
        else declarationPieces (.ofSettings k) e)
      (if k.labelNaming.appliesTo e.id then
        tellApart [] (declarationPieces (.ofSettings k) (e.modify f q))
        else declarationPieces (.ofSettings k) (e.modify f q)) := by
    split
    · exact hpieces.tellApart []
    · exact hpieces
  have hheader : headerSection (e.modify f q) = headerSection e := rfl
  rw [← hdeclared.text_eq_iff hhead, ofEvent, ofEvent, text_append, text_append, hheader,
    List.append_cancel_left_eq]
  simp only [text, Section.text, List.flatMap_cons, List.flatMap_nil, List.append_nil]
  rfl

end Listing

end EventScript
