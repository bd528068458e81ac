import EventScript.Proofs.Listing.Joined
import EventScript.Proofs.Listing.Row
import EventScript.Proofs.Listing.Target

/-!
Labels at the ends of bodies.

A numbered label that ends its body is printed with something to stand at, as if a statement that
does nothing followed it.

* `Statement.Padded`, `Body.Padded`, `Event.Padded`: such statements put behind labels at the ends
  of bodies, at any depth;
* `Listing.bodyPieces_padded`: they do not change what is printed;
* `Event.referenceFault?_padded`: nor whether an event is refused;
* `Event.labels_stand`: every label of a formatted event stands at something in its body, and with
  or without such statements the event is formatted alike.
-/

namespace EventScript

mutual

/-- Some of the bodies in a statement have been padded at their ends. -/
inductive Statement.Padded : Statement → Statement → Prop
  | simple (tags : Tags) (a : Action) : Statement.Padded (.simple tags a) (.simple tags a)
  | loop {body body' : List Statement} (tags : Tags) (code : Text)
      (hbody : Body.Padded body body') :
      Statement.Padded (.loop tags code body) (.loop tags code body')
  | choice {yes yes' no no' : List Statement} (tags : Tags) (c : Condition)
      (hyes : Body.Padded yes yes') (hno : Body.Padded no no') :
      Statement.Padded (.choice tags c yes no) (.choice tags c yes' no')

/-- Some bodies that end with a numbered label, this one or others in it, have been given a
statement that does nothing behind the label. -/
inductive Body.Padded : List Statement → List Statement → Prop
  | nil : Body.Padded [] []
  | cons {s t : Statement} {rest rest' : List Statement} (hs : Statement.Padded s t)
      (hrest : Body.Padded rest rest') : Body.Padded (s :: rest) (t :: rest')
  | atEnd (tags : Tags) (number : Nat) :
      Body.Padded [.simple tags (.label number)]
        [.simple tags (.label number), .ofAction .noOp]

end

/-- An event with padded bodies. -/
def Event.Padded (e e' : Event) : Prop := ∃ body, Body.Padded e.body body ∧ e' = { e with body }

/-! ### What padding keeps -/

/-- Padding the bodies of a statement leaves its shell. -/
lemma Statement.Padded.shell_eq {s t : Statement} (h : s.Padded t) : t.shell = s.shell := by
  cases h <;> rfl

lemma Statement.Padded.isLabel_eq {s t : Statement} (h : s.Padded t) : t.isLabel = s.isLabel := by
  rw [← Statement.isLabel_shell, h.shell_eq, Statement.isLabel_shell]

namespace Body.Padded

variable {body body' : Body}

lemma isEmpty_eq (h : Padded body body') : body'.isEmpty = body.isEmpty := by
  cases h <;> rfl

/-- A second branch that goes on in the line before still does, and no other one. -/
lemma isJoined_eq (h : Padded body body') : isJoined body' = isJoined body := by
  cases h with
  | nil => rfl
  | @cons s t rest rest' hs hrest =>
      have hchoice : t.isChoice = s.isChoice := by
        rw [← Statement.isChoice_shell, hs.shell_eq, Statement.isChoice_shell]
      have htags : t.tags = s.tags := by
        rw [← Statement.tags_shell, hs.shell_eq, Statement.tags_shell]
      rw [isJoined_cons, isJoined_cons, hrest.isEmpty_eq, hchoice, htags]
  | atEnd tags number => rfl

end Body.Padded

/-! ### Padded bodies printed -/

namespace Listing

open Layout

variable {p : Page}

/-- The line of a statement that does nothing. -/
lemma headPiece_noOp (sp : Text) :
    headPiece p sp [] (.ofAction .noOp) = .plain (sp ++ "NoOp();\n".toList) := by
  have hline := Tree.renderLine_leaf p sp [] "NoOp();".toList
  rw [headPiece, Piece.plain]
  exact congrArg (Piece.run none) (hline.trans (by simp))

/-- What follows the first branch of a choice stays if what is printed of the second one does. -/
lemma elsePieces_congr {depth : Nat} {no no' : Body} (hempty : no'.isEmpty = no.isEmpty)
    (hjoined : Body.isJoined no' = Body.isJoined no)
    (h : ∀ depth before, bodyPieces p depth before false no' = bodyPieces p depth before false no) :
    elsePieces p depth no' = elsePieces p depth no := by
  cases no with
  | nil =>
      obtain rfl : no' = [] := List.isEmpty_iff.mp hempty
      rfl
  | cons s rest =>
      cases no' with
      | nil => cases hempty
      | cons s' rest' => rw [elsePieces_cons, elsePieces_cons, hjoined, h, h]

mutual

lemma statementPieces_padded : ∀ (s : Statement) {t : Statement}, s.Padded t →
    ∀ (depth : Nat) (before : Text) (afterLabel isLast : Bool),
      statementPieces p depth before afterLabel isLast t =
        statementPieces p depth before afterLabel isLast s
  | .simple tags a, _, h, depth, before, afterLabel, isLast => by
      cases h with
      | simple => rfl
  | .loop tags code body, _, h, depth, before, afterLabel, isLast => by
      cases h with
      | loop _ _ hbody =>
          rw [statementPieces, statementPieces, bodyPieces_padded body hbody]
          rfl
  | .choice tags c yes no, _, h, depth, before, afterLabel, isLast => by
      cases h with
      | choice _ _ hyes hno =>
          have helse : elsePieces p depth _ = elsePieces p depth no :=
            elsePieces_congr hno.isEmpty_eq hno.isJoined_eq fun depth before =>
              bodyPieces_padded no hno depth before false
          rw [statementPieces_choice, statementPieces_choice, bodyPieces_padded yes hyes, helse]
          rfl

/-- **Padding changes nothing that is printed.** -/
theorem bodyPieces_padded : ∀ (body : List Statement) {body' : List Statement},
    Body.Padded body body' → ∀ (depth : Nat) (before : Text) (afterLabel : Bool),
      bodyPieces p depth before afterLabel body' = bodyPieces p depth before afterLabel body
  | [], _, h, depth, before, afterLabel => by
      cases h with
      | nil => rfl
  | s :: rest, _, h, depth, before, afterLabel => by
      cases h with
      | cons hs hrest =>
          rw [bodyPieces, bodyPieces, statementPieces_padded s hs,
            bodyPieces_padded rest hrest, hrest.isEmpty_eq, hs.isLabel_eq]
      | atEnd tags number =>
          have hnoOp : statementPieces p depth [] true true (.ofAction .noOp) =
              [headPiece p (p.indentAt depth) [] (.ofAction .noOp)] := rfl
          simp only [bodyPieces, List.isEmpty_cons, List.isEmpty_nil, Statement.isLabel, hnoOp,
            headPiece_noOp]
          simp [statementPieces, actionPieces_label]

end

/-- A label at the end of its body. -/
example : (bodyPieces (.ofSettings {}) 1 [] false [.ofAction (.label 0)]).flatMap Piece.text =
    "L0:\n    NoOp();\n".toList := by decide

end Listing

/-! ### Padded events -/

/-- What is read off the shell of a statement is read off it padded. -/
lemma Statement.Padded.read_eq {β : Type} {g : Statement → List β} (hshell : ∀ s, g s.shell = g s)
    {s t : Statement} (h : s.Padded t) : g t = g s := by
  rw [← hshell, h.shell_eq, hshell]

mutual

lemma Statement.flatMap_walk_padded {β : Type} {g : Statement → List β}
    (hshell : ∀ s, g s.shell = g s) (hnoOp : g (.ofAction .noOp) = []) :
    ∀ (s : Statement) {t : Statement}, s.Padded t → t.walk.flatMap g = s.walk.flatMap g
  | .simple tags a, _, h => by
      cases h with
      | simple => rfl
  | .loop tags code body, _, h => by
      have hread := h.read_eq hshell
      cases h with
      | loop _ _ hbody =>
          have hin := Body.flatMap_walk_padded hshell hnoOp body hbody
          rw [Statement.walk, Statement.walk, List.flatMap_append, List.flatMap_append, hin,
            List.flatMap_singleton, List.flatMap_singleton, hread]
  | .choice tags c yes no, _, h => by
      have hread := h.read_eq hshell
      cases h with
      | choice _ _ hyes hno =>
          have hfirst := Body.flatMap_walk_padded hshell hnoOp yes hyes
          have hsecond := Body.flatMap_walk_padded hshell hnoOp no hno
          rw [Statement.walk, Statement.walk, List.flatMap_append, List.flatMap_append,
            List.flatMap_append, List.flatMap_append, hfirst, hsecond, List.flatMap_singleton,
            List.flatMap_singleton, hread]

/-- What is read off shells in a visit, and not off statements that do nothing, padding leaves. -/
lemma Body.flatMap_walk_padded {β : Type} {g : Statement → List β}
    (hshell : ∀ s, g s.shell = g s) (hnoOp : g (.ofAction .noOp) = []) :
    ∀ (body : List Statement) {body' : List Statement}, Body.Padded body body' →
      (Body.walk body').flatMap g = (Body.walk body).flatMap g
  | [], _, h => by
      cases h with
      | nil => rfl
  | s :: rest, _, h => by
      cases h with
      | cons hs hrest =>
          rw [Body.walk, Body.walk, List.flatMap_append, List.flatMap_append,
            Statement.flatMap_walk_padded hshell hnoOp s hs,
            Body.flatMap_walk_padded hshell hnoOp rest hrest]
      | atEnd tags number =>
          have hwalk : Body.walk [.simple tags (.label number), .ofAction .noOp] =
              Body.walk [.simple tags (.label number)] ++ [.ofAction .noOp] := rfl
          rw [hwalk, List.flatMap_append, List.flatMap_singleton, hnoOp, List.append_nil]

end

namespace Statement

lemma text_shell (s : Statement) : s.shell.text = s.text := by
  cases s <;> rfl

/-- The fault of a statement is read off its shell. -/
lemma referenceFault?_shell (declared assigned : List Text) (s : Statement) :
    s.shell.referenceFault? declared assigned = s.referenceFault? declared assigned := by
  rw [referenceFault?, referenceFault?, jumpFault?, jumpFault?, target?_shell, condition?_shell,
    text_shell]

end Statement

namespace Event

variable {e e' : Event}

/-- **Padding changes no reference**: a padded event has the same fault, or none. -/
theorem referenceFault?_padded (h : e.Padded e') : e'.referenceFault? = e.referenceFault? := by
  obtain ⟨body, hbody, rfl⟩ := h
  have hlabels : declaredLabels { e with body } = e.declaredLabels :=
    Body.flatMap_walk_padded (g := Statement.declaredLabels) Statement.declaredLabels_shell rfl
      e.body hbody
  have hvariables : assignedVariables { e with body } = e.assignedVariables := by
    have h := Body.flatMap_walk_padded (g := fun s => s.assignedVariable?.toList)
      (fun s => by rw [Statement.assignedVariable?_shell]) rfl e.body hbody
    rwa [← List.filterMap_eq_flatMap_toList, ← List.filterMap_eq_flatMap_toList] at h
  have hfault := Body.flatMap_walk_padded
    (g := fun s => (s.referenceFault? e.declaredLabels e.assignedVariables).toList)
    (fun s => by rw [Statement.referenceFault?_shell]) rfl e.body hbody
  rw [← List.filterMap_eq_flatMap_toList, ← List.filterMap_eq_flatMap_toList] at hfault
  rw [referenceFault?, referenceFault?, hlabels, hvariables, ← List.head?_filterMap,
    ← List.head?_filterMap, hfault]

open Listing

lemma ofEvent_padded (k : Settings) (h : e.Padded e') : ofEvent k e' = ofEvent k e := by
  obtain ⟨body, hbody, rfl⟩ := h
  have hpieces : declarationPieces (.ofSettings k) { e with body } =
      declarationPieces (.ofSettings k) e := by
    rw [declarationPieces, declarationPieces, bodyPieces_padded e.body hbody]
    rfl
  rw [ofEvent, ofEvent, hpieces]
  rfl

/-- **A padded event is formatted alike.** -/
theorem format_padded (k : Settings) (h : e.Padded e') : k.format [e'] = k.format [e] := by
  have hrefusal : k.refusal? e' = k.refusal? e := by
    rw [Settings.refusal?, Settings.refusal?, referenceFault?_padded h]
  have hdraft : k.draft [e'] = k.draft [e] := by
    simp only [Settings.draft, Settings.draftBehind, hrefusal, ofEvent_padded k h]
  rw [Settings.format, Settings.format, Settings.formatTo, Settings.formatTo, hdraft]

/-- **Labels stand at statements of their bodies.** In a formatted event whose loops are no
statements of their own at their ends, the declaration of a label is followed, behind further
declarations and remarks alone, by the text of a statement of the same body, which is not in front
of the label, or by what a numbered label at the end of the body is given to stand at. That is the
line of a statement that does nothing: the event is formatted alike with one behind any such
labels. -/
theorem labels_stand (k : Settings) {e : Event} {f : Formatted} (hf : k.format [e] = .ok f) :
    f.text = Listing.text (headerSection e) ++ openingLine e ++
        (e.owned k).flatMap (fun x => x.piece.text) ++
          (closingPieces (.ofSettings k) e).flatMap Piece.text ∧
      (∀ x ∈ e.owned k, e.get? x.position = some x.statement) ∧
      ((∀ q s, e.get? q = some s → s.isLoopEnd = false) →
        ∀ front x back name suffix, e.owned k = front ++ x :: back →
          x.piece = .label name suffix → Lands (.ofSettings k) x.position x.depth back) ∧
      ∀ e', e.Padded e' → k.format [e'] = .ok f := by
  refine ⟨?_, fun x hx => get?_of_mem_owned hx, ?_, fun e' h => (format_padded k h).trans hf⟩
  · rw [(k.refusal?_of_format hf).2, text_ofEvent, declaredPieces_eq]
    simp [Piece.plain, Piece.text, List.flatMap_map]
  · intro hloops front x back name suffix hsplit hx
    have hlands := labelsLand_owned k hloops
    rw [hsplit] at hlands
    exact hlands.lands hx

/-- An event with two labels at the end of a branch. -/
def labelled : Event where
  body := [.choice {} (.readOf ['x']) [.simple { labels := ["a".toList] } (.label 0)] []]

theorem labels_stand_labelled : ∃ f, ({} : Settings).format [labelled] = .ok f ∧
    (∀ q s, labelled.get? q = some s → s.isLoopEnd = false) ∧
      (∀ front x back name suffix, labelled.owned {} = front ++ x :: back →
        x.piece = .label name suffix → Lands (.ofSettings {}) x.position x.depth back) ∧
        ({} : Settings).format [{ body := [.choice {} (.readOf ['x'])
          [.simple { labels := ["a".toList] } (.label 0), .ofAction .noOp] []] }] = .ok f := by
  have hloops : ∀ q s, labelled.get? q = some s → s.isLoopEnd = false := by
    intro q s hs
    have hwalk : ∀ t ∈ Body.walk labelled.body, t.isLoopEnd = false := by decide
    exact hwalk s (Body.mem_walk_iff.mpr ⟨q, hs⟩)
  have hformat := ({} : Settings).format_singleton (e := labelled) rfl
  obtain ⟨-, -, hlands, hpadded⟩ := labels_stand {} hformat
  refine ⟨_, hformat, hloops, hlands hloops, hpadded _ ⟨_, ?_, rfl⟩⟩
  exact .cons (.choice _ _ (.atEnd _ _) .nil) .nil

end Event

end EventScript
