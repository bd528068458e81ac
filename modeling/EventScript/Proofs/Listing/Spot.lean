import EventScript.Proofs.Listing.Woven
import EventScript.Proofs.Text.Lines

/-!
Where the statements of a body are printed.

A body is printed statement by statement, each in front of those nested in it. A spot is a statement
with all that its own lines depend on, and the pieces of a body are those of its spots one after the
other, with pieces in between that belong to none.

* `Body.preorder`: the statements of a body in the order in which they are printed;
* `Listing.Spot`, `Listing.bodySpots`: the spots of a body, which are its statements in that order
  (`map_statement_bodySpots`);
* `Listing.Owns`, `Listing.Aligned`: the pieces of one spot and of several, and
  `Listing.aligned_bodyPieces`: the pieces of a body are those of its spots;
* `Listing.Aligned.exists_split`: so the pieces of a spot are found among the others.
-/

namespace EventScript

mutual

/-- The statements in a statement, each in front of those nested in it. -/
def Statement.preorder : Statement → List Statement
  | .simple tags a => [.simple tags a]
  | .loop tags code body => .loop tags code body :: Body.preorder body
  | .choice tags c yes no => .choice tags c yes no :: (Body.preorder yes ++ Body.preorder no)

/-- The statements in a body. -/
def Body.preorder : List Statement → List Statement
  | [] => []
  | s :: rest => s.preorder ++ Body.preorder rest

end

/-- Whether a second branch goes on in the line that closes the first one: it is a choice alone, and
there is no label in front of it. -/
def Body.isJoined : Body → Bool
  | [s] => s.isChoice && s.tags.labels.isEmpty
  | _ => false

lemma Body.isJoined_cons (s : Statement) (rest : Body) : Body.isJoined (s :: rest) =
    (rest.isEmpty && s.isChoice && s.tags.labels.isEmpty) := by
  cases rest <;> rfl

namespace Listing

open Layout

/-! ### Spots -/

/-- A statement with what its lines depend on: how many steps it is in, what is printed in front of
it on its first line, and whether it stands behind a numbered label. -/
structure Spot where
  statement : Statement
  depth : Nat
  before : Text
  afterLabel : Bool

namespace Spot

/-- The source lines of a statement. -/
def source? (x : Spot) : Option LineMap := x.statement.tags.lines

/-- Whether a statement is printed at all: only one that does nothing is left out. -/
def isPrinted (x : Spot) : Bool :=
  !(x.statement.isNoOp && isLeftOut x.statement.tags x.afterLabel)

/-- The lines of a statement that is printed, without those of its bodies. -/
def text (p : Page) (x : Spot) : Text :=
  x.statement.layout.renderLine p (p.indentAt x.depth) x.before
    (Remark.suffix x.statement.tags.remarks)

lemma getLast?_text (p : Page) (x : Spot) : (x.text p).getLast? = some '\n' :=
  List.getLast?_concat

end Spot

mutual

/-- The spots in a statement. -/
def statementSpots (depth : Nat) (before : Text) (afterLabel : Bool) : Statement → List Spot
  | .simple tags a => [⟨.simple tags a, depth, before, afterLabel⟩]
  | .loop tags code body =>
    ⟨.loop tags code body, depth, before, afterLabel⟩ :: bodySpots (depth + 1) [] false body
  | .choice tags c yes no =>
    ⟨.choice tags c yes no, depth, before, afterLabel⟩ ::
      (bodySpots (depth + 1) [] false yes ++
        if Body.isJoined no then bodySpots depth Text.blockElse false no
        else bodySpots (depth + 1) [] false no)

/-- The spots in a body, with `before` in front of the text of its first statement. -/
def bodySpots (depth : Nat) (before : Text) (afterLabel : Bool) : List Statement → List Spot
  | [] => []
  | s :: rest => statementSpots depth before afterLabel s ++ bodySpots depth [] s.isLabel rest

end

mutual

/-- The spots in a statement are its statements. -/
lemma map_statement_statementSpots : ∀ (s : Statement) (depth : Nat) (before : Text)
    (afterLabel : Bool),
      (statementSpots depth before afterLabel s).map Spot.statement = s.preorder
  | .simple tags a, depth, before, afterLabel => rfl
  | .loop tags code body, depth, before, afterLabel => by
      have hbody := map_statement_bodySpots body (depth + 1) [] false
      rw [statementSpots, List.map_cons, hbody, Statement.preorder]
  | .choice tags c yes no, depth, before, afterLabel => by
      have hyes := map_statement_bodySpots yes (depth + 1) [] false
      have hno := map_statement_bodySpots no
      rw [statementSpots, List.map_cons, List.map_append, hyes, Statement.preorder]
      split
      · rw [hno]
      · rw [hno]

/-- The spots in a body are its statements. -/
lemma map_statement_bodySpots : ∀ (body : List Statement) (depth : Nat) (before : Text)
    (afterLabel : Bool),
      (bodySpots depth before afterLabel body).map Spot.statement = Body.preorder body
  | [], depth, before, afterLabel => rfl
  | s :: rest, depth, before, afterLabel => by
      have hs := map_statement_statementSpots s depth before afterLabel
      have hrest := map_statement_bodySpots rest depth [] s.isLabel
      rw [bodySpots, List.map_append, hs, hrest, Body.preorder]

end

/-! ### Pieces of spots -/

/-- The pieces of a statement, of which the first one has its source lines. The declaration of a
label may have been renamed. -/
inductive Owns (p : Page) (x : Spot) : List Piece → Prop
  | lines (hprinted : x.isPrinted = true) (hlabel : x.statement.isLabel = false) :
      Owns p x [.run x.source? (x.text p)]
  | label (hlabel : x.statement.isLabel = true) (name suffix : Text) :
      Owns p x [.run x.source? [], .label name suffix]
  | nothing (hprinted : x.isPrinted = false) : Owns p x [.run x.source? []]

/-- Pieces of whole lines that belong to spots, in the order of the spots, or to none. -/
inductive Aligned (p : Page) : List Spot → List Piece → Prop
  | nil : Aligned p [] []
  | plain {t : Text} {xs : List Spot} {ps : List Piece} (ht : t.IsWhole) (h : Aligned p xs ps) :
      Aligned p xs (.plain t :: ps)
  | label {xs : List Spot} {ps : List Piece} (name suffix : Text) (h : Aligned p xs ps) :
      Aligned p xs (.label name suffix :: ps)
  | spot {x : Spot} {own : List Piece} {xs : List Spot} {ps : List Piece} (hown : Owns p x own)
      (h : Aligned p xs ps) : Aligned p (x :: xs) (own ++ ps)

variable {p : Page}

namespace Owns

variable {x : Spot} {own : List Piece}

lemma sources (h : Owns p x own) : own.filterMap Piece.source? = x.source?.toList := by
  cases h with
  | lines hprinted hlabel => cases hx : x.source? <;> simp [Piece.source?]
  | label hlabel name suffix => cases hx : x.source? <;> simp [Piece.source?]
  | nothing hprinted => cases hx : x.source? <;> simp [Piece.source?]

lemma isWhole_label (name suffix : Text) : Text.IsWhole (Piece.label name suffix).text :=
  Text.isWhole_concat _

lemma isWhole (h : Owns p x own) : ∀ q ∈ own, q.text.IsWhole := by
  intro q hq
  cases h with
  | lines hprinted hlabel =>
      rw [List.mem_singleton.mp hq]
      exact Or.inr (x.getLast?_text p)
  | label hlabel name suffix =>
      rcases List.mem_cons.mp hq with rfl | hq
      · exact Text.isWhole_nil
      · rw [List.mem_singleton.mp hq]
        exact isWhole_label name suffix
  | nothing hprinted =>
      rw [List.mem_singleton.mp hq]
      exact Text.isWhole_nil

/-- Repeated labels told apart, the pieces of a statement are still its pieces. -/
lemma exists_tellApart (h : Owns p x own) (used : List Text) (ps : List Piece) :
    ∃ own' used', Listing.tellApart used (own ++ ps) = own' ++ Listing.tellApart used' ps ∧
      Owns p x own' := by
  cases h with
  | lines hprinted hlabel => exact ⟨_, used, rfl, .lines hprinted hlabel⟩
  | label hlabel name suffix =>
      exact ⟨[.run x.source? [], .label (newName used name) suffix], newName used name :: used, rfl,
        .label hlabel _ suffix⟩
  | nothing hprinted => exact ⟨_, used, rfl, .nothing hprinted⟩

end Owns

namespace Aligned

variable {xs ys : List Spot} {ps qs : List Piece}

lemma append (h : Aligned p xs ps) (h' : Aligned p ys qs) : Aligned p (xs ++ ys) (ps ++ qs) := by
  induction h with
  | nil => exact h'
  | plain ht _ ih => exact plain ht ih
  | label name suffix _ ih => exact label name suffix ih
  | spot hown _ ih =>
      rw [List.append_assoc]
      exact spot hown ih

lemma tellApart (h : Aligned p xs ps) (used : List Text) :
    Aligned p xs (Listing.tellApart used ps) := by
  induction h generalizing used with
  | nil => exact nil
  | plain ht _ ih => exact plain ht (ih used)
  | label name suffix _ ih => exact label _ suffix (ih _)
  | @spot x own xs ps hown _ ih =>
      obtain ⟨own', used', htell, hown'⟩ := hown.exists_tellApart used ps
      rw [htell]
      exact spot hown' (ih used')

/-- The source lines of the pieces are those of the spots. -/
lemma sources (h : Aligned p xs ps) :
    ps.filterMap Piece.source? = xs.filterMap Spot.source? := by
  induction h with
  | nil => rfl
  | plain ht _ ih => exact ih
  | label name suffix _ ih => exact ih
  | @spot x own xs ps hown _ ih =>
      rw [List.filterMap_append, hown.sources, ih]
      cases hx : x.source? with
      | none => simp [hx]
      | some m => simp [hx]

lemma isWhole (h : Aligned p xs ps) : ∀ q ∈ ps, q.text.IsWhole := by
  induction h with
  | nil => exact fun q hq => absurd hq List.not_mem_nil
  | plain ht _ ih => exact List.forall_mem_cons.mpr ⟨ht, ih⟩
  | label name suffix _ ih =>
      exact List.forall_mem_cons.mpr ⟨Owns.isWhole_label name suffix, ih⟩
  | spot hown _ ih => exact List.forall_mem_append.mpr ⟨hown.isWhole, ih⟩

/-- **The pieces of a spot among the others.** -/
lemma exists_split {x : Spot} (h : Aligned p (xs ++ x :: ys) ps) :
    ∃ front own back, ps = front ++ (own ++ back) ∧ Aligned p xs front ∧ Owns p x own ∧
      Aligned p ys back := by
  generalize hzs : xs ++ x :: ys = zs at h
  induction h generalizing xs with
  | nil => simp at hzs
  | plain ht _ ih =>
      obtain ⟨front, own, back, rfl, hfront, hown, hback⟩ := ih hzs
      exact ⟨_ :: front, own, back, rfl, plain ht hfront, hown, hback⟩
  | label name suffix _ ih =>
      obtain ⟨front, own, back, rfl, hfront, hown, hback⟩ := ih hzs
      exact ⟨_ :: front, own, back, rfl, label name suffix hfront, hown, hback⟩
  | @spot y own ys' ps hown hrest ih =>
      cases xs with
      | nil =>
          obtain ⟨rfl, rfl⟩ := List.cons.inj hzs
          exact ⟨[], own, ps, rfl, nil, hown, hrest⟩
      | cons z xs =>
          obtain ⟨rfl, htail⟩ := List.cons.inj hzs
          obtain ⟨front, own', back, rfl, hfront, hown', hback⟩ := ih htail
          exact ⟨own ++ front, own', back, (List.append_assoc ..).symm, spot hown hfront, hown',
            hback⟩

/-- Lines of remarks belong to no statement. -/
lemma remarkLines (sp : Text) (rs : List Remark) : Aligned p [] (Listing.remarkLines sp rs) := by
  rw [Listing.remarkLines]
  induction Remark.linesAbove rs with
  | nil => exact nil
  | cons line lines ih =>
      refine plain ?_ ih
      rw [Remark.lineAt]
      split
      · exact Text.isWhole_concat []
      · exact Text.isWhole_concat _

/-- The lines of remarks and the labels in front of a statement belong to none. -/
lemma leadPieces (sp : Text) (tags : Tags) : Aligned p [] (Listing.leadPieces sp tags) := by
  have hlabels : Aligned p [] (tags.labels.map fun name => .label name []) := by
    induction tags.labels with
    | nil => exact nil
    | cons name names ih => exact label name [] ih
  exact (remarkLines sp tags.remarks).append hlabels

lemma closing (sp : Text) : Aligned p [] [Listing.closing sp] := by
  refine plain (Or.inr ?_) nil
  rw [List.getLast?_append]
  rfl

lemma dividing {xs : List Spot} {ps : List Piece} (h : Aligned p xs ps) (sp : Text) :
    Aligned p xs (Listing.dividing sp :: ps) := by
  refine plain (Or.inr ?_) h
  rw [List.getLast?_append]
  rfl

end Aligned

/-! ### Bodies -/

/-- The pieces of an action. -/
lemma aligned_actionPieces (depth : Nat) (before : Text) (afterLabel isLast : Bool) (tags : Tags)
    (a : Action) : Aligned p [⟨.simple tags a, depth, before, afterLabel⟩]
      (actionPieces p depth before afterLabel isLast tags a) := by
  cases a with
  | noOp =>
      rw [actionPieces_noOp]
      split
      · next h =>
          have hprinted :
              Spot.isPrinted ⟨.simple tags .noOp, depth, before, afterLabel⟩ = false := by
            simp [Spot.isPrinted, Statement.isNoOp, Statement.tags, h]
          exact .spot (.nothing hprinted) .nil
      · next h =>
          have hprinted :
              Spot.isPrinted ⟨.simple tags .noOp, depth, before, afterLabel⟩ = true := by
            simp [Spot.isPrinted, Statement.tags, h]
          exact .spot (.lines hprinted rfl) .nil
  | label number =>
      have hlast : Aligned p []
          (if isLast then [.plain (p.indentAt depth ++ "NoOp();\n".toList)] else []) := by
        split
        · refine .plain (Or.inr ?_) .nil
          rw [List.getLast?_append]
          rfl
        · exact .nil
      rw [actionPieces_label]
      exact .spot (.label rfl _ _) hlast
  | _ => exact .spot (.lines rfl rfl) .nil

/-- The pieces of a block: its own, and those of what is nested in it. -/
lemma Aligned.block {s : Statement} {xs : List Spot} {ps : List Piece} (h : Aligned p xs ps)
    (hs : s.isBlock = true) (depth : Nat) (before : Text) (afterLabel : Bool) :
    Aligned p (⟨s, depth, before, afterLabel⟩ :: xs)
      (Listing.leadPieces (p.indentAt depth) s.tags ++
        headPiece p (p.indentAt depth) before s :: ps) := by
  have hown : Owns p ⟨s, depth, before, afterLabel⟩ [headPiece p (p.indentAt depth) before s] := by
    cases s with
    | simple tags a => cases hs
    | loop tags code body => exact .lines rfl rfl
    | choice tags c yes no => exact .lines rfl rfl
  exact (Aligned.leadPieces _ s.tags).append (.spot hown h)

lemma elsePieces_cons (depth : Nat) (s : Statement) (rest : Body) :
    elsePieces p depth (s :: rest) =
      if Body.isJoined (s :: rest) then bodyPieces p depth Text.blockElse false (s :: rest)
      else dividing (p.indentAt depth) ::
        (bodyPieces p (depth + 1) [] false (s :: rest) ++ [closing (p.indentAt depth)]) := by
  rw [elsePieces, Body.isJoined_cons]

/-- What follows the first branch of a choice belongs to the second one. -/
lemma aligned_elsePieces (depth : Nat) (no : Body)
    (hno : Aligned p (bodySpots (depth + 1) [] false no) (bodyPieces p (depth + 1) [] false no))
    (helse : Aligned p (bodySpots depth Text.blockElse false no)
      (bodyPieces p depth Text.blockElse false no)) :
    Aligned p (if Body.isJoined no then bodySpots depth Text.blockElse false no
      else bodySpots (depth + 1) [] false no) (elsePieces p depth no) := by
  cases no with
  | nil => exact .closing _
  | cons s rest =>
      rw [elsePieces_cons]
      split
      · exact helse
      · have hblock := (hno.append (.closing (p.indentAt depth))).dividing (p.indentAt depth)
        rwa [List.append_nil] at hblock

mutual

/-- **The pieces of a statement are those of its spots.** -/
theorem aligned_statementPieces : ∀ (s : Statement) (depth : Nat) (before : Text)
    (afterLabel isLast : Bool), Aligned p (statementSpots depth before afterLabel s)
      (statementPieces p depth before afterLabel isLast s)
  | .simple tags a, depth, before, afterLabel, isLast => by
      rw [statementPieces, statementSpots]
      exact (Aligned.leadPieces _ tags).append
        (aligned_actionPieces depth before afterLabel isLast tags a)
  | .loop tags code body, depth, before, afterLabel, isLast => by
      have hbody := aligned_bodyPieces body (depth + 1) [] false
      have hclosed := hbody.append (.closing (p.indentAt depth))
      rw [List.append_nil] at hclosed
      rw [statementPieces, statementSpots]
      exact hclosed.block (s := .loop tags code body) rfl depth before afterLabel
  | .choice tags c yes no, depth, before, afterLabel, isLast => by
      have hyes := aligned_bodyPieces yes (depth + 1) [] false
      have hno := aligned_bodyPieces no (depth + 1) [] false
      have helse := aligned_bodyPieces no depth Text.blockElse false
      rw [statementPieces_choice, statementSpots]
      exact (hyes.append (aligned_elsePieces depth no hno helse)).block
        (s := .choice tags c yes no) rfl depth before afterLabel

/-- **The pieces of a body are those of its spots.** -/
theorem aligned_bodyPieces : ∀ (body : List Statement) (depth : Nat) (before : Text)
    (afterLabel : Bool), Aligned p (bodySpots depth before afterLabel body)
      (bodyPieces p depth before afterLabel body)
  | [], depth, before, afterLabel => .nil
  | s :: rest, depth, before, afterLabel => by
      rw [bodyPieces, bodySpots]
      exact (aligned_statementPieces s depth before afterLabel rest.isEmpty).append
        (aligned_bodyPieces rest depth [] s.isLabel)

end

end Listing

end EventScript
