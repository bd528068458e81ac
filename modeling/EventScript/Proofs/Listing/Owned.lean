import EventScript.Proofs.Listing.Mapped
import EventScript.Proofs.Listing.Reprint

/-!
The pieces of a listing and the statements they belong to.

Every piece of a printed body is given the statement it belongs to, with its position.

* `Listing.Owned`, `Listing.bodyOwned`: pieces with their owners; without the owners they are those
  that are printed (`map_piece_bodyOwned`);
* `Listing.isOf_bodyOwned`: the owners are statements of the body;
* `Event.owned`: the printed pieces of the statements of an event, with their owners
  (`declaredPieces_eq`, `get?_of_mem_owned`).
-/

namespace EventScript

namespace Listing

open Layout

/-! ### Pieces with their owners -/

/-- A piece with the statement it belongs to: where it stands, and how many steps in. -/
structure Owned where
  position : Position
  depth : Nat
  statement : Statement
  piece : Piece

/-- A piece of a branch, seen from the body that the branch is in. -/
def Owned.within (index branch : Nat) (x : Owned) : Owned :=
  { x with position := .inside index branch x.position }

mutual

/-- The pieces of a statement at an index of a body, with their owners. What closes a block belongs
to the statement that has the block. -/
def statementOwned (p : Page) (depth : Nat) (before : Text) (afterLabel isLast : Bool)
    (index : Nat) : Statement → List Owned
  | .simple tags a =>
    (leadPieces (p.indentAt depth) tags ++
      actionPieces p depth before afterLabel isLast tags a).map
        (Owned.mk (.here index) depth (.simple tags a))
  | .loop tags code body =>
    let own := Owned.mk (.here index) depth (.loop tags code body)
    (leadPieces (p.indentAt depth) tags).map own ++
      own (headPiece p (p.indentAt depth) before (.loop tags code body)) ::
        ((bodyOwned p (depth + 1) [] false 0 body).map (Owned.within index 0) ++
          [own (closing (p.indentAt depth))])
  | .choice tags c yes no =>
    let own := Owned.mk (.here index) depth (.choice tags c yes no)
    (leadPieces (p.indentAt depth) tags).map own ++
      own (headPiece p (p.indentAt depth) before (.choice tags c yes no)) ::
        ((bodyOwned p (depth + 1) [] false 0 yes).map (Owned.within index 0) ++
          if Body.isJoined no then
            (bodyOwned p depth Text.blockElse false 0 no).map (Owned.within index 1)
          else
            (if no.isEmpty then []
              else own (dividing (p.indentAt depth)) ::
                (bodyOwned p (depth + 1) [] false 0 no).map (Owned.within index 1)) ++
              [own (closing (p.indentAt depth))])

/-- The pieces of statements from an index on, with their owners. -/
def bodyOwned (p : Page) (depth : Nat) (before : Text) (afterLabel : Bool) (index : Nat) :
    List Statement → List Owned
  | [] => []
  | s :: rest =>
    statementOwned p depth before afterLabel rest.isEmpty index s ++
      bodyOwned p depth [] s.isLabel (index + 1) rest

end

section

variable {p : Page}

lemma map_piece_own (q : Position) (depth : Nat) (s : Statement) (ps : List Piece) :
    (ps.map (Owned.mk q depth s)).map Owned.piece = ps := by
  rw [List.map_map]
  exact List.map_id ps

lemma map_piece_within (index branch : Nat) (xs : List Owned) :
    (xs.map (Owned.within index branch)).map Owned.piece = xs.map Owned.piece := by
  rw [List.map_map]
  rfl

mutual

/-- Without the owners, the pieces of a statement are those that are printed. -/
lemma map_piece_statementOwned : ∀ (s : Statement) (depth : Nat) (before : Text)
    (afterLabel isLast : Bool) (index : Nat),
      (statementOwned p depth before afterLabel isLast index s).map Owned.piece =
        statementPieces p depth before afterLabel isLast s
  | .simple tags a, depth, before, afterLabel, isLast, index => by
      rw [statementOwned, map_piece_own, statementPieces]
  | .loop tags code body, depth, before, afterLabel, isLast, index => by
      have hbody := map_piece_bodyOwned body (depth + 1) [] false 0
      simp only [statementOwned, List.map_append, List.map_cons, map_piece_own, map_piece_within,
        hbody, statementPieces, List.map_nil]
  | .choice tags c yes no, depth, before, afterLabel, isLast, index => by
      have hyes := map_piece_bodyOwned yes (depth + 1) [] false 0
      have hno := map_piece_bodyOwned no (depth + 1) [] false 0
      have helse := map_piece_bodyOwned no depth Text.blockElse false 0
      rw [statementPieces_choice]
      simp only [statementOwned, List.map_append, List.map_cons, map_piece_own, map_piece_within,
        hyes]
      refine congrArg (fun ps => leadPieces (p.indentAt depth) tags ++
        headPiece p (p.indentAt depth) before (.choice tags c yes no) ::
          (bodyPieces p (depth + 1) [] false yes ++ ps)) ?_
      cases no with
      | nil => rfl
      | cons s rest =>
          rw [elsePieces_cons]
          split
          · rw [map_piece_within, helse]
          · have hnested := (map_piece_within index 1 _).trans hno
            simpa using hnested

/-- Without the owners, the pieces of statements are those that are printed. -/
lemma map_piece_bodyOwned : ∀ (body : List Statement) (depth : Nat) (before : Text)
    (afterLabel : Bool) (index : Nat),
      (bodyOwned p depth before afterLabel index body).map Owned.piece =
        bodyPieces p depth before afterLabel body
  | [], depth, before, afterLabel, index => rfl
  | s :: rest, depth, before, afterLabel, index => by
      have hs := map_piece_statementOwned s depth before afterLabel rest.isEmpty index
      have hrest := map_piece_bodyOwned rest depth [] s.isLabel (index + 1)
      rw [bodyOwned, List.map_append, hs, hrest, bodyPieces]

end

end

/-! ### The owners of pieces -/

/-- A piece belongs to a statement that is visited, and that stands where it says. -/
def Owned.IsOf (x : Owned) (sites : List Site) : Prop :=
  ∃ y ∈ sites, y.position = x.position ∧ y.statement = x.statement

lemma Owned.IsOf.mono {x : Owned} {sites sites' : List Site} (h : x.IsOf sites)
    (hsub : sites ⊆ sites') : x.IsOf sites' := by
  obtain ⟨y, hy, heq⟩ := h
  exact ⟨y, hsub hy, heq⟩

/-- The pieces of a branch belong to its sites, seen from the body that the branch is in. -/
lemma isOf_within {xs : List Owned} {sites : List Site} (h : ∀ x ∈ xs, x.IsOf sites)
    (index branch : Nat) :
    ∀ x ∈ xs.map (Owned.within index branch), x.IsOf (sites.map (Site.within index branch)) := by
  intro x hx
  obtain ⟨z, hz, rfl⟩ := List.mem_map.mp hx
  obtain ⟨y, hy, hposition, hstatement⟩ := h z hz
  exact ⟨y.within index branch, List.mem_map_of_mem hy,
    congrArg (Position.inside index branch) hposition, hstatement⟩

/-- The own pieces of a statement belong to its site. -/
lemma isOf_own (index depth : Nat) (s : Statement) (rest : Body) (ps : List Piece) :
    ∀ x ∈ ps.map (Owned.mk (.here index) depth s), x.IsOf (s.sites index rest) := by
  intro x hx
  obtain ⟨piece, -, rfl⟩ := List.mem_map.mp hx
  refine ⟨⟨.here index, s, rest⟩, ?_, rfl, rfl⟩
  rw [Statement.sites_eq]
  exact List.mem_append_right _ (List.mem_singleton_self _)

section

variable {p : Page}

mutual

/-- The pieces of a statement belong to its sites. -/
lemma isOf_statementOwned : ∀ (s : Statement) (depth : Nat) (before : Text)
    (afterLabel isLast : Bool) (index : Nat) (rest : Body),
      ∀ x ∈ statementOwned p depth before afterLabel isLast index s, x.IsOf (s.sites index rest)
  | .simple tags a, depth, before, afterLabel, isLast, index, rest => by
      rw [statementOwned]
      exact isOf_own index depth _ rest _
  | .loop tags code body, depth, before, afterLabel, isLast, index, rest => by
      have hown := isOf_own index depth (.loop tags code body) rest
      have hbody := isOf_within (isOf_bodyOwned body (depth + 1) [] false 0) index 0
      rw [statementOwned]
      refine List.forall_mem_append.mpr ⟨hown _, List.forall_mem_cons.mpr
        ⟨hown [_] _ (List.mem_singleton_self _), List.forall_mem_append.mpr
          ⟨fun x hx => (hbody x hx).mono ?_, hown [_]⟩⟩⟩
      exact List.subset_append_left _ _
  | .choice tags c yes no, depth, before, afterLabel, isLast, index, rest => by
      have hown := isOf_own index depth (.choice tags c yes no) rest
      have hyes := isOf_within (isOf_bodyOwned yes (depth + 1) [] false 0) index 0
      have hno (depth : Nat) (before : Text) :
          ∀ x ∈ (bodyOwned p depth before false 0 no).map (Owned.within index 1),
            x.IsOf ((Statement.choice tags c yes no).sites index rest) := by
        intro x hx
        refine (isOf_within (isOf_bodyOwned no depth before false 0) index 1 x hx).mono ?_
        exact List.Subset.trans (List.subset_append_right _ _) (List.subset_append_left _ _)
      rw [statementOwned]
      refine List.forall_mem_append.mpr ⟨hown _, List.forall_mem_cons.mpr
        ⟨hown [_] _ (List.mem_singleton_self _), List.forall_mem_append.mpr
          ⟨fun x hx => (hyes x hx).mono ?_, ?_⟩⟩⟩
      · exact List.Subset.trans (List.subset_append_left _ _) (List.subset_append_left _ _)
      · split
        · exact hno depth _
        · refine List.forall_mem_append.mpr ⟨?_, hown [_]⟩
          split
          · exact fun x hx => absurd hx List.not_mem_nil
          · exact List.forall_mem_cons.mpr
              ⟨hown [_] _ (List.mem_singleton_self _), hno (depth + 1) []⟩

/-- The pieces of statements belong to their sites. -/
lemma isOf_bodyOwned : ∀ (body : List Statement) (depth : Nat) (before : Text)
    (afterLabel : Bool) (index : Nat),
      ∀ x ∈ bodyOwned p depth before afterLabel index body, x.IsOf (Body.sitesFrom index body)
  | [], depth, before, afterLabel, index => fun x hx => absurd hx List.not_mem_nil
  | s :: rest, depth, before, afterLabel, index => by
      have hs := isOf_statementOwned s depth before afterLabel rest.isEmpty index rest
      have hrest := isOf_bodyOwned rest depth [] s.isLabel (index + 1)
      rw [bodyOwned, Body.sitesFrom]
      refine List.forall_mem_append.mpr
        ⟨fun x hx => (hs x hx).mono ?_, fun x hx => (hrest x hx).mono ?_⟩
      · exact List.subset_append_left _ _
      · exact List.subset_append_right _ _

end

end

/-! ### Repeated labels -/

/-- The pieces with every label declared under a new name. -/
def tellOwned (used : List Text) : List Owned → List Owned
  | [] => []
  | ⟨q, depth, s, .run lines t⟩ :: xs => ⟨q, depth, s, .run lines t⟩ :: tellOwned used xs
  | ⟨q, depth, s, .label name suffix⟩ :: xs =>
    ⟨q, depth, s, .label (newName used name) suffix⟩ :: tellOwned (newName used name :: used) xs

/-- Without the owners, the pieces are told apart as those that are printed. -/
lemma map_piece_tellOwned (used : List Text) (xs : List Owned) :
    (tellOwned used xs).map Owned.piece = tellApart used (xs.map Owned.piece) := by
  induction xs generalizing used with
  | nil => rfl
  | cons x xs ih =>
      obtain ⟨q, depth, s, piece⟩ := x
      cases piece with
      | run lines t => rw [tellOwned, List.map_cons, ih, List.map_cons, tellApart]
      | label name suffix => rw [tellOwned, List.map_cons, ih, List.map_cons, tellApart]

/-- A new name changes nothing about the owner. -/
lemma isOf_tellOwned {xs : List Owned} {sites : List Site} (h : ∀ x ∈ xs, x.IsOf sites)
    (used : List Text) : ∀ x ∈ tellOwned used xs, x.IsOf sites := by
  induction xs generalizing used with
  | nil => exact fun x hx => absurd hx List.not_mem_nil
  | cons x xs ih =>
      obtain ⟨hx, hxs⟩ := List.forall_mem_cons.mp h
      obtain ⟨q, depth, s, piece⟩ := x
      cases piece with
      | run lines t => exact List.forall_mem_cons.mpr ⟨hx, ih hxs used⟩
      | label name suffix => exact List.forall_mem_cons.mpr ⟨hx, ih hxs _⟩

end Listing

/-! ### The pieces of an event -/

namespace Event

open Listing

/-- The printed pieces of the statements of an event, with their owners. -/
def owned (k : Settings) (e : Event) : List Owned :=
  let xs := bodyOwned (.ofSettings k) 1 [] false 0 e.body
  if k.labelNaming.appliesTo e.id then tellOwned [] xs else xs

variable {k : Settings} {e : Event}

/-- The owners are statements of the event. -/
lemma get?_of_mem_owned {x : Owned} (hx : x ∈ e.owned k) :
    e.get? x.position = some x.statement := by
  have hof : ∀ x ∈ e.owned k, x.IsOf (Body.sites e.body) := by
    rw [owned]
    split
    · exact isOf_tellOwned (isOf_bodyOwned e.body 1 [] false 0) []
    · exact isOf_bodyOwned e.body 1 [] false 0
  obtain ⟨y, hy, hposition, hstatement⟩ := hof x hx
  rw [← hposition, ← hstatement]
  exact (Body.mem_sites_iff.mp hy).1

/-- **The declaration of an event** is printed as its opening line, the pieces of its statements,
and what closes it. -/
lemma declaredPieces_eq (k : Settings) (e : Event) : declaredPieces k e =
    .plain (openingLine e) ::
      ((e.owned k).map Owned.piece ++ closingPieces (.ofSettings k) e) := by
  have hbody := map_piece_bodyOwned (p := .ofSettings k) e.body 1 [] false 0
  rw [declaredPieces, declarationPieces, owned]
  split
  · have hclosing : ∀ used, tellApart used (closingPieces (.ofSettings k) e) =
        closingPieces (.ofSettings k) e :=
      tellApart_of_runs fun _ h => exists_run_of_mem_closingPieces h
    obtain ⟨used, htell⟩ := exists_tellApart_append []
      (bodyPieces (.ofSettings k) 1 [] false e.body)
    rw [Piece.plain, tellApart, htell, hclosing, map_piece_tellOwned, hbody]
  · rw [hbody]

end Event

end EventScript
