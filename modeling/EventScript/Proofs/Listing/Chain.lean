import EventScript.Proofs.Layout.Ink
import EventScript.Proofs.Listing.Mapped
import EventScript.Proofs.Listing.Reprint

/-!
Chains of choices.

A second branch that is a choice alone goes on in the line that closes the first branch, and leaves
the end of the block to it. So a chain of choices, each alone in the second branch of the one in
front, is printed flat: a head and a body for each of them, and one end for all.

* `Link`, `Link.chain`: a choice of a chain, and the body that a chain of them is;
* `Body.slot`: how far in a statement is printed, and what stands in front of its text;
* `Listing.has_slot`, `Listing.exists_declaredPieces_split`: the pieces of a statement are found
  among those of a body, and among those of an event;
* `Listing.chainPieces`, `Listing.statementPieces_chain`: the pieces of a chain, written flat, are
  those that are printed;
* `Listing.chain_isFlat`: a chain in an event, under any settings.
-/

namespace EventScript

/-! ### Chains -/

/-- A choice of a chain without its second branch. It has neither labels nor remarks. -/
structure Link where
  tags : Tags
  condition : Condition
  body : Body
  labels_eq_nil : tags.labels = []
  remarks_eq_nil : tags.remarks = []

namespace Link

/-- The choice with a second branch. -/
def choice (l : Link) (no : Body) : Statement := .choice l.tags l.condition l.body no

/-- The body of a chain: each link is alone in the second branch of the one in front, and the last
one has the final body. -/
def chain (final : Body) : List Link → Body
  | [] => final
  | l :: links => [l.choice (chain final links)]

end Link

/-! ### Where statements are printed -/

/-- How a statement is printed: how many steps in, and with what in front of its text. -/
structure Slot where
  depth : Nat
  before : Text
deriving DecidableEq, Repr

/-- The slot of the statement at a position of a body that is printed in a slot. A second branch
that goes on in the line that closes the first one is not further in. -/
def Body.slot (outer : Slot) (body : Body) : Position → Slot
  | .here index => ⟨outer.depth, if index = 0 then outer.before else []⟩
  | .inside index branch rest =>
    match (body[index]?).bind fun s => s.bodies[branch]? with
    | none => outer
    | some inner =>
      if branch = 1 && isJoined inner then slot ⟨outer.depth, Text.blockElse⟩ inner rest
      else slot ⟨outer.depth + 1, []⟩ inner rest

/-- The slot of the statement at a position of an event. -/
def Event.slot (e : Event) (q : Position) : Slot := Body.slot ⟨1, []⟩ e.body q

namespace Listing

open Layout

variable {p : Page}

/-- The pieces of a statement in a slot are among the given ones. -/
def Has (p : Page) (s : Statement) (slot : Slot) (pieces : List Piece) : Prop :=
  ∃ front back afterLabel isLast,
    pieces = front ++ (statementPieces p slot.depth slot.before afterLabel isLast s ++ back)

namespace Has

variable {s : Statement} {slot : Slot} {pieces : List Piece}

lemma behind (h : Has p s slot pieces) (more : List Piece) : Has p s slot (more ++ pieces) := by
  obtain ⟨front, back, afterLabel, isLast, rfl⟩ := h
  exact ⟨more ++ front, back, afterLabel, isLast, by simp⟩

lemma inFront (h : Has p s slot pieces) (more : List Piece) : Has p s slot (pieces ++ more) := by
  obtain ⟨front, back, afterLabel, isLast, rfl⟩ := h
  exact ⟨front, back ++ more, afterLabel, isLast, by simp⟩

lemma cons (h : Has p s slot pieces) (x : Piece) : Has p s slot (x :: pieces) := h.behind [x]

end Has

/-- The pieces of a body have those of its statements. -/
lemma has_of_getElem? {body : Body} {index : Nat} {s : Statement} (hs : body[index]? = some s)
    (depth : Nat) (before : Text) (afterLabel : Bool) :
    Has p s ⟨depth, if index = 0 then before else []⟩
      (bodyPieces p depth before afterLabel body) := by
  induction body generalizing index before afterLabel with
  | nil => cases hs
  | cons t rest ih =>
      rw [bodyPieces]
      cases index with
      | zero =>
          obtain rfl := Option.some.inj hs
          exact ⟨[], _, afterLabel, rest.isEmpty, rfl⟩
      | succ index =>
          have h := (ih hs [] t.isLabel).behind
            (statementPieces p depth before afterLabel rest.isEmpty t)
          rwa [ite_self] at h

/-- The pieces of a statement have those of its branches. -/
lemma Has.of_branch {s t : Statement} {branch : Nat} {inner : Body} {slot : Slot} {depth : Nat}
    (hinner : t.bodies[branch]? = some inner) (hne : inner ≠ [])
    (h : Has p s slot (if branch = 1 && Body.isJoined inner then
      bodyPieces p depth Text.blockElse false inner
      else bodyPieces p (depth + 1) [] false inner))
    (before : Text) (afterLabel isLast : Bool) :
    Has p s slot (statementPieces p depth before afterLabel isLast t) := by
  cases t with
  | simple tags a => cases hinner
  | loop tags code body =>
      cases branch with
      | zero =>
          obtain rfl := Option.some.inj hinner
          rw [statementPieces]
          exact ((h.inFront _).cons _).behind _
      | succ branch => cases hinner
  | choice tags c yes no =>
      obtain _ | _ | branch := branch
      · obtain rfl := Option.some.inj hinner
        rw [statementPieces_choice]
        exact ((h.inFront _).cons _).behind _
      · obtain rfl := Option.some.inj hinner
        obtain ⟨u, rest, rfl⟩ := List.exists_cons_of_ne_nil hne
        rw [statementPieces_choice, elsePieces_cons]
        refine Has.behind (Has.cons (Has.behind ?_ _) _) _
        split at h
        · next hjoined =>
            rw [if_pos (by simpa using hjoined)]
            exact h
        · next hjoined =>
            rw [if_neg (by simpa using hjoined)]
            exact (h.inFront _).cons _
      · cases hinner

/-- **The pieces of a statement are among those of the body**, in its slot. -/
theorem has_slot {s : Statement} {q : Position} {body : Body} (hs : Body.get? body q = some s)
    (depth : Nat) (before : Text) (afterLabel : Bool) :
    Has p s (Body.slot ⟨depth, before⟩ body q) (bodyPieces p depth before afterLabel body) := by
  induction q generalizing body depth before afterLabel with
  | here index => exact has_of_getElem? hs depth before afterLabel
  | inside index branch r ih =>
      obtain ⟨t, ht, hs⟩ := Option.bind_eq_some_iff.mp hs
      obtain ⟨inner, hinner, hs⟩ := Option.bind_eq_some_iff.mp hs
      have hne : inner ≠ [] := by
        rintro rfl
        cases r <;> cases hs
      rw [Body.slot, ht, Option.bind_some, hinner]
      obtain ⟨front, back, afterLabel', isLast, hpieces⟩ :=
        has_of_getElem? (p := p) ht depth before afterLabel
      rw [hpieces]
      refine ((Has.of_branch hinner hne ?_ _ _ _).inFront _).behind _
      dsimp only
      split
      · exact ih hs depth _ false
      · exact ih hs (depth + 1) [] false

/-! ### The pieces of a chain -/

/-- The head of a link, with `before` in front of its text. -/
def linkHead (p : Page) (depth : Nat) (before : Text) (l : Link) : Piece :=
  headPiece p (p.indentAt depth) before (l.choice [])

/-- The end of a chain: that of the last branch, and in front of it the final body if there is
one. -/
def chainEnd (p : Page) (depth : Nat) (final : Body) : List Piece :=
  (if final.isEmpty then []
    else dividing (p.indentAt depth) :: bodyPieces p (depth + 1) [] false final) ++
    [closing (p.indentAt depth)]

/-- The pieces of a chain, written flat: the head and the body of the first link, those of each
further link, whose heads close the branch in front, and the end. -/
def chainPieces (p : Page) (depth : Nat) (before : Text) (first : Link) (rest : List Link)
    (final : Body) : List Piece :=
  (linkHead p depth before first :: bodyPieces p (depth + 1) [] false first.body) ++
    (rest.flatMap fun l =>
      linkHead p depth Text.blockElse l :: bodyPieces p (depth + 1) [] false l.body) ++
    chainEnd p depth final

variable {final : Body}

/-- The pieces of a link. -/
lemma statementPieces_link (l : Link) (depth : Nat) (before : Text) (afterLabel isLast : Bool)
    (no : Body) : statementPieces p depth before afterLabel isLast (l.choice no) =
      linkHead p depth before l ::
        (bodyPieces p (depth + 1) [] false l.body ++ elsePieces p depth no) := by
  rw [Link.choice, statementPieces_choice, leadPieces, l.labels_eq_nil, remarkLines,
    l.remarks_eq_nil]
  rfl

/-- What follows the first branch of a link is flat if the rest of the chain is. -/
lemma elsePieces_chain (hfinal : Body.isJoined final = false) (depth : Nat) (links : List Link) :
    elsePieces p depth (Link.chain final links) =
      (links.flatMap fun l =>
        linkHead p depth Text.blockElse l :: bodyPieces p (depth + 1) [] false l.body) ++
      chainEnd p depth final := by
  induction links with
  | nil =>
      rw [Link.chain, List.flatMap_nil, List.nil_append]
      cases final with
      | nil => rfl
      | cons s rest =>
          rw [elsePieces_cons, hfinal]
          rfl
  | cons l links ih =>
      have hjoined : Body.isJoined [l.choice (Link.chain final links)] = true := by
        rw [Body.isJoined, Link.choice, Statement.isChoice, Statement.tags, l.labels_eq_nil]
        rfl
      rw [Link.chain, elsePieces_cons, if_pos hjoined, bodyPieces, bodyPieces,
        statementPieces_link, ih, List.flatMap_cons]
      simp

/-- **A chain is printed flat.** -/
theorem statementPieces_chain (hfinal : Body.isJoined final = false) (first : Link)
    (rest : List Link) (depth : Nat) (before : Text) (afterLabel isLast : Bool) :
    statementPieces p depth before afterLabel isLast (first.choice (Link.chain final rest)) =
      chainPieces p depth before first rest final := by
  rw [statementPieces_link, elsePieces_chain hfinal, chainPieces]
  simp

/-- Three choices, of which only the last one is closed. -/
example : (bodyPieces (.ofSettings {}) 0 [] false [.choice {} (.readOf ['x']) []
    [.choice {} (.readOf ['y']) [] [.choice {} (.readOf ['z']) [] []]]]).flatMap Piece.text =
      "if (x) {
} else if (y) {
} else if (z) {
}
".toList := by decide

/-! ### The end of a chain -/

/-- The head of a link is not the end of a block, as there is a parenthesis in it. -/
lemma linkHead_ne_closing (k : Settings) (depth : Nat) (before : Text) (l : Link) :
    linkHead (.ofSettings k) depth before l ≠ closing ((Page.ofSettings k).indentAt depth) := by
  intro heq
  have hindent := Page.squeeze_indent_ofSettings k
  have hsp := Page.squeeze_indentAt hindent depth
  have htext := congrArg (fun q => q.text.count '(') heq
  have hhead : 1 ≤ (linkHead (.ofSettings k) depth before l).text.count '(' := by
    have hline : 1 ≤ (l.choice []).layout.oneLine.count '(' := by
      rw [Link.choice, Statement.layout, Tree.between, Tree.oneLine, List.count_append,
        List.count_append]
      have hopening : "if (".toList.count '(' = 1 := by decide
      omega
    rw [linkHead, headPiece, Piece.text,
      Tree.count_renderLine (by decide) hindent (Statement.isTidy_layout _) hsp]
    omega
  have hclosing : (closing ((Page.ofSettings k).indentAt depth)).text.count '(' = 0 := by
    rw [closing, Piece.plain, Piece.text, List.count_append,
      Text.count_eq_zero_of_squeeze (by decide) hsp]
    decide
  rw [hclosing] at htext
  omega

/-- How many lines close a block at an indent. -/
def closings (p : Page) (depth : Nat) (ps : List Piece) : Nat :=
  ps.count (closing (p.indentAt depth))

lemma closings_append (p : Page) (depth : Nat) (ps qs : List Piece) :
    closings p depth (ps ++ qs) = closings p depth ps + closings p depth qs := List.count_append

lemma closings_cons_linkHead (k : Settings) (depth : Nat) (before : Text) (l : Link)
    (ps : List Piece) :
    closings (.ofSettings k) depth (linkHead (.ofSettings k) depth before l :: ps) =
      closings (.ofSettings k) depth ps :=
  List.count_cons_of_ne (linkHead_ne_closing k depth before l)

lemma closings_chainEnd (p : Page) (depth : Nat) (final : Body) :
    closings p depth (chainEnd p depth final) =
      closings p depth (bodyPieces p (depth + 1) [] false final) + 1 := by
  have helse : dividing (p.indentAt depth) ≠ closing (p.indentAt depth) := by
    intro heq
    have htext := List.append_cancel_left (Piece.run.inj heq).2
    revert htext
    decide
  have hend : closings p depth [closing (p.indentAt depth)] = 1 := List.count_singleton_self ..
  rw [chainEnd, closings_append, hend]
  cases final with
  | nil => rfl
  | cons s rest =>
      refine congrArg (· + 1) ?_
      exact List.count_cons_of_ne helse

/-- **One line closes a chain**, however many links it has: all other ends of blocks at its indent
are in the bodies. -/
theorem closings_chainPieces (k : Settings) (depth : Nat) (before : Text) (first : Link)
    (rest : List Link) (final : Body) :
    closings (.ofSettings k) depth (chainPieces (.ofSettings k) depth before first rest final) =
      closings (.ofSettings k) depth ((first.body :: rest.map Link.body ++ [final]).flatMap
        (bodyPieces (.ofSettings k) (depth + 1) [] false)) + 1 := by
  have hrest : closings (.ofSettings k) depth (rest.flatMap fun l =>
      linkHead (.ofSettings k) depth Text.blockElse l ::
        bodyPieces (.ofSettings k) (depth + 1) [] false l.body) =
      closings (.ofSettings k) depth ((rest.map Link.body).flatMap
        (bodyPieces (.ofSettings k) (depth + 1) [] false)) := by
    induction rest with
    | nil => rfl
    | cons l rest ih =>
        rw [List.flatMap_cons, closings_append, closings_cons_linkHead, ih, List.map_cons,
          List.flatMap_cons, closings_append]
  rw [chainPieces, closings_append, closings_append, closings_cons_linkHead, hrest,
    closings_chainEnd, List.cons_append, List.flatMap_cons, List.flatMap_append,
    List.flatMap_singleton, closings_append, closings_append]
  omega

/-! ### Chains in events -/

/-- The pieces of an event with the repeated labels in it told apart, if they are in this event and
if those in front of the pieces have been given the names in `used`. -/
def named (k : Settings) (e : Event) (used : List Text) (ps : List Piece) : List Piece :=
  if k.labelNaming.appliesTo e.id then tellApart used ps else ps

/-- What is printed of pieces does not depend on those behind them, and on those in front of them
only by the names that these give away. -/
lemma exists_named_append (k : Settings) (e : Event) (used : List Text) (ps : List Piece) :
    ∃ used', ∀ qs, named k e used (ps ++ qs) = named k e used ps ++ named k e used' qs := by
  obtain ⟨used', h⟩ := exists_tellApart_append used ps
  refine ⟨used', fun qs => ?_⟩
  rw [named, named, named]
  split
  · exact h qs
  · rfl

/-- The printed pieces of a statement of an event are those in its slot. -/
theorem exists_declaredPieces_split (k : Settings) {e : Event} {q : Position} {s : Statement}
    (hs : e.get? q = some s) :
    ∃ front back used afterLabel isLast, declaredPieces k e =
      front ++ (named k e used (statementPieces (.ofSettings k) (e.slot q).depth
        (e.slot q).before afterLabel isLast s) ++ back) := by
  have hbody : Has (.ofSettings k) s (e.slot q) (declarationPieces (.ofSettings k) e) :=
    ((has_slot hs 1 [] false).inFront _).cons _
  obtain ⟨front, back, afterLabel, isLast, hpieces⟩ := hbody
  have hdeclared : declaredPieces k e = named k e [] (declarationPieces (.ofSettings k) e) := rfl
  obtain ⟨used, hfront⟩ := exists_named_append k e [] front
  obtain ⟨used', hback⟩ := exists_named_append k e used
    (statementPieces (.ofSettings k) (e.slot q).depth (e.slot q).before afterLabel isLast s)
  refine ⟨named k e [] front, named k e used' back, used, afterLabel, isLast, ?_⟩
  rw [hdeclared, hpieces, hfront, hback]

/-- **Chains of choices are printed flat.** A chain of any length, with a final body that does not
go on in the line in front of it, is printed as the head of its first link and then its body one
step further in, the head of each further link, which closes the branch in front, and then its body
one step further in, and the end: the final body one step further in, if there is one, and one
closing line for the whole chain. So it is at every indent and wherever it stands in an event. -/
theorem chain_isFlat (k : Settings) (first : Link) (rest : List Link) {final : Body}
    (hfinal : Body.isJoined final = false) :
    (∀ depth before afterLabel isLast,
      statementPieces (.ofSettings k) depth before afterLabel isLast
          (first.choice (Link.chain final rest)) =
        chainPieces (.ofSettings k) depth before first rest final) ∧
      (∀ depth before,
        closings (.ofSettings k) depth (chainPieces (.ofSettings k) depth before first rest final) =
          closings (.ofSettings k) depth ((first.body :: rest.map Link.body ++ [final]).flatMap
            (bodyPieces (.ofSettings k) (depth + 1) [] false)) + 1) ∧
        ∀ (e : Event) (f : Formatted) (q : Position), k.format [e] = .ok f →
          e.get? q = some (first.choice (Link.chain final rest)) →
            ∃ front back used, f.text = front ++ (named k e used
              (chainPieces (.ofSettings k) (e.slot q).depth (e.slot q).before first rest
                final)).flatMap Piece.text ++ back := by
  refine ⟨fun depth before => statementPieces_chain hfinal first rest depth before,
    fun depth before => closings_chainPieces k depth before first rest final,
    fun e f q hf hs => ?_⟩
  obtain ⟨front, back, used, afterLabel, isLast, hpieces⟩ := exists_declaredPieces_split k hs
  rw [statementPieces_chain hfinal] at hpieces
  refine ⟨text (headerSection e) ++ front.flatMap Piece.text, back.flatMap Piece.text, used, ?_⟩
  rw [(k.refusal?_of_format hf).2, text_ofEvent, hpieces]
  simp

/-- A link with a body that jumps. -/
def jumpLink (x : Text) : Link where
  tags := {}
  condition := .readOf x
  body := [.ofAction (.jump (.label "a".toList) .always)]
  labels_eq_nil := rfl
  remarks_eq_nil := rfl

/-- An event with a chain of two links and a final body. -/
def chained : Event where
  body := [(jumpLink ['x']).choice (Link.chain [.simple { labels := ["a".toList] } .noOp]
    [jumpLink ['y']])]

theorem chain_isFlat_chained :
    Body.isJoined [.simple { labels := ["a".toList] } .noOp] = false ∧
      ∃ f front back used, ({} : Settings).format [chained] = .ok f ∧
        f.text = front ++ (named {} chained used (chainPieces (.ofSettings {})
          (chained.slot (.here 0)).depth (chained.slot (.here 0)).before (jumpLink ['x'])
            [jumpLink ['y']] [.simple { labels := ["a".toList] } .noOp])).flatMap Piece.text ++
              back := by
  have hfinal : Body.isJoined [.simple { labels := ["a".toList] } .noOp] = false := rfl
  obtain ⟨maps, hf⟩ := ({} : Settings).format_of_accepted (e := chained) rfl
  obtain ⟨-, -, hevent⟩ := chain_isFlat {} (jumpLink ['x']) [jumpLink ['y']] hfinal
  obtain ⟨front, back, used, htext⟩ := hevent chained _ (.here 0) hf rfl
  exact ⟨hfinal, _, front, back, used, hf, htext⟩

end Listing

end EventScript
