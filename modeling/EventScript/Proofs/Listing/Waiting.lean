import EventScript.Proofs.Condition.Reading
import EventScript.Proofs.Layout.Squeeze
import EventScript.Proofs.Listing.Written

/-!
An event that waits for a condition tells which one, whatever the settings.

* `Event.waitingFor`: an event with a wait for its body;
* `Listing.squeeze_waitingFor`: what is left of its listing without its blanks;
* `Settings.squeeze_format_eq_iff`: the formatted texts of two such events agree without their
  blanks exactly if the conditions have the same normal form.
-/

namespace EventScript

/-- The event with a wait for its body. -/
def Event.waitingFor (e : Event) (c : Condition) (isSpecial : Bool) : Event :=
  { e with body := [.ofAction (.wait c isSpecial)] }

/-! ### Conditions without remarks -/

namespace Condition

mutual

/-- A condition that can be read has no remarks. -/
lemma allRemarks_layout_of_isReadable : ∀ (bare : Bool) (c : Condition), c.isReadable = true →
    (c.layout bare).allRemarks = []
  | bare, atom a negated remarks, h => by
      obtain ⟨-, hremarks⟩ := Bool.and_eq_true_iff.mp h
      obtain rfl : remarks = [] := List.isEmpty_iff.mp hremarks
      rfl
  | bare, combine op parts negated remarks, h => by
      obtain ⟨h, hremarks⟩ := Bool.and_eq_true_iff.mp h
      obtain ⟨-, hparts⟩ := Bool.and_eq_true_iff.mp h
      obtain rfl : remarks = [] := List.isEmpty_iff.mp hremarks
      rw [layout, Layout.Tree.allRemarks, List.nil_append]
      exact partRemarks_layouts_of_areReadable parts hparts

lemma partRemarks_layouts_of_areReadable : ∀ cs : List Condition, areReadable cs = true →
    Layout.Tree.partRemarks (layouts cs) = []
  | [], _ => rfl
  | c :: cs, h => by
      obtain ⟨hc, hcs⟩ := Bool.and_eq_true_iff.mp h
      rw [layouts, Layout.Tree.partRemarks, allRemarks_layout_of_isReadable false c hc,
        partRemarks_layouts_of_areReadable cs hcs, List.nil_append]

end

end Condition

/-! ### Listings -/

namespace Listing

open Layout

/-- What stands in front of the body of an event, without its blanks. -/
def squeezedLead (e : Event) : Text := Text.squeeze (text (headerSection e) ++ openingLine e)

/-- What stands behind the body of an event, without its blanks. -/
def squeezedTail (e : Event) : Text :=
  Text.squeeze (((Remark.linesAbove e.closingRemarks).flatMap fun line => line) ++
    (Event.closingMark ++ Remark.suffix e.closingRemarks))

lemma squeeze_lineAt {sp : Text} (hsp : Text.squeeze sp = []) (line : Text) :
    Text.squeeze (Remark.lineAt sp line) = Text.squeeze line := by
  cases line with
  | nil => rfl
  | cons c t =>
      rw [Remark.lineAt, if_neg (by simp), Text.squeeze_append, Text.squeeze_append, hsp,
        Text.squeeze_lineEnd, List.nil_append, List.append_nil]

/-- The lines that close an event, without their blanks. -/
lemma squeeze_closingPieces {p : Page} (hp : Text.squeeze p.indent = []) (e : Event) :
    Text.squeeze ((closingPieces p e).flatMap Piece.text) = squeezedTail e := by
  have hlines : Text.squeeze ((remarkLines p.indent e.closingRemarks).flatMap Piece.text) =
      Text.squeeze ((Remark.linesAbove e.closingRemarks).flatMap fun line => line) := by
    rw [remarkLines, List.flatMap_map, Text.squeeze_flatMap, Text.squeeze_flatMap]
    exact List.flatMap_congr fun line _ => squeeze_lineAt hp line
  rw [closingPieces, List.flatMap_append, Text.squeeze_append, hlines, squeezedTail,
    Text.squeeze_append, List.flatMap_singleton, Piece.plain, Piece.text,
    Text.squeeze_append _ ['\n'], Text.squeeze_lineEnd, List.append_nil]

/-- The text of a listing whose declaration declares no label. -/
lemma text_ofEvent_of_runs (k : Settings) {e : Event}
    (h : ∀ q ∈ declarationPieces (.ofSettings k) e, ∃ source t, q = .run source t) :
    (ofEvent k e).text = text (headerSection e) ++
      (declarationPieces (.ofSettings k) e).flatMap Piece.text := by
  rw [ofEvent, text_append, tellApart_of_runs h, ite_self]
  congr 1
  exact List.flatMap_singleton ..

/-- The text of a wait without its blanks. -/
lemma squeeze_headPiece_wait {p : Page} (hp : Text.squeeze p.indent = []) {c : Condition}
    (isSpecial : Bool) (h : (c.layout true).allRemarks = []) :
    Text.squeeze (headPiece p (p.indentAt 1) [] (.ofAction (.wait c isSpecial))).text =
      "WaitFor(".toList ++ (Text.squeeze (c.layout true).oneLine ++ ");".toList) := by
  have hremarks : (Statement.ofAction (.wait c isSpecial)).layout.allRemarks = [] := by
    have hparts : (Statement.ofAction (.wait c isSpecial)).layout.allRemarks =
        (c.layout true).allRemarks ++ [] := rfl
    rw [hparts, h, List.append_nil]
  have hline : (Statement.ofAction (.wait c isSpecial)).layout.oneLine =
      "WaitFor(".toList ++ (c.layout true).oneLine ++ ");".toList :=
    Tree.oneLine_behind _ _ _
  have hopening : Text.squeeze "WaitFor(".toList = "WaitFor(".toList := by decide
  have hclosing : Text.squeeze ");".toList = ");".toList := by decide
  have hsuffix :
      Text.squeeze (Remark.suffix (Statement.ofAction (.wait c isSpecial)).tags.remarks) = [] := rfl
  rw [headPiece, Piece.text, Tree.squeeze_renderLine hp (Page.squeeze_indentAt hp 1) _ _ hremarks,
    hline, Text.squeeze_append, Text.squeeze_append, hopening, hclosing, hsuffix, Text.squeeze_nil,
    List.append_nil, List.nil_append, List.append_assoc]

/-- **What is left of an event that waits**, without its blanks: the wait between what stands around
the body, which does not depend on the settings. -/
theorem squeeze_waitingFor (k : Settings) (e : Event) {c : Condition} (isSpecial : Bool)
    (h : (c.layout true).allRemarks = []) :
    Text.squeeze (ofEvent k (e.waitingFor c isSpecial)).text =
      squeezedLead e ++ ("WaitFor(".toList ++ (Text.squeeze (c.layout true).oneLine ++
        ");".toList)) ++ squeezedTail e := by
  have hp := Page.squeeze_indent_ofSettings k
  have hpieces : declarationPieces (.ofSettings k) (e.waitingFor c isSpecial) =
      .plain (openingLine e) ::
        (headPiece (.ofSettings k) ((Page.ofSettings k).indentAt 1) []
          (.ofAction (.wait c isSpecial)) :: closingPieces (.ofSettings k) e) := rfl
  have hruns : ∀ q ∈ declarationPieces (.ofSettings k) (e.waitingFor c isSpecial),
      ∃ source t, q = .run source t := by
    intro q hq
    rw [hpieces] at hq
    rcases List.mem_cons.mp hq with rfl | hq
    · exact ⟨none, _, rfl⟩
    · rcases List.mem_cons.mp hq with rfl | hq
      · exact ⟨_, _, rfl⟩
      · exact exists_run_of_mem_closingPieces hq
  have hheader : headerSection (e.waitingFor c isSpecial) = headerSection e := rfl
  rw [text_ofEvent_of_runs k hruns, hpieces, hheader, List.flatMap_cons, List.flatMap_cons,
    Text.squeeze_append, Text.squeeze_append, Text.squeeze_append, squeeze_headPiece_wait hp _ h,
    squeeze_closingPieces hp, squeezedLead, Text.squeeze_append, Piece.plain, Piece.text]
  simp only [List.append_assoc]

end Listing

namespace Settings

variable (k₁ k₂ : Settings)

/-- **The formatted text of a wait determines its condition**, up to the normal form: without their
blanks the texts agree exactly if the normal forms do, whatever the settings. -/
theorem squeeze_format_eq_iff (h₁ : k₁.verifiesReferences = false)
    (h₂ : k₂.verifiesReferences = false) (e : Event) (isSpecial₁ isSpecial₂ : Bool)
    {c₁ c₂ : Condition} (hc₁ : c₁.isReadable = true) (hc₂ : c₂.isReadable = true) :
    ∃ f₁ f₂, k₁.format [e.waitingFor c₁ isSpecial₁] = .ok f₁ ∧
      k₂.format [e.waitingFor c₂ isSpecial₂] = .ok f₂ ∧
        (Text.squeeze f₁.text = Text.squeeze f₂.text ↔ c₁.normal = c₂.normal) := by
  obtain ⟨maps₁, hformat₁⟩ := k₁.format_of_accepted (e := e.waitingFor c₁ isSpecial₁)
    (by rw [refusal?, h₁]; rfl)
  obtain ⟨maps₂, hformat₂⟩ := k₂.format_of_accepted (e := e.waitingFor c₂ isSpecial₂)
    (by rw [refusal?, h₂]; rfl)
  refine ⟨_, _, hformat₁, hformat₂, ?_⟩
  rw [← Condition.squeeze_argument_eq_iff hc₁ hc₂,
    Listing.squeeze_waitingFor k₁ e isSpecial₁ (Condition.allRemarks_layout_of_isReadable _ _ hc₁),
    Listing.squeeze_waitingFor k₂ e isSpecial₂ (Condition.allRemarks_layout_of_isReadable _ _ hc₂)]
  constructor
  · intro h
    exact List.append_cancel_right
      (List.append_cancel_left (List.append_cancel_left (List.append_cancel_right h)))
  · intro h
    rw [h]

/-- A test of a value in a combination, negated or of the opposite relation. -/
def valueTest (relation : Comparison) (negated : Bool) : Condition :=
  .combine .any [
    .atom (.compare relation (.value (.parameter "X0_4".toList)) (.int (-1))) negated [],
    .combine .all [.atom (.read 3 true none) true [],
      .atom (.query ⟨"InArea".toList, [.int 10000, .parameter "area".toList]⟩) false []] true []]
    false []

/-- The two ways to write the test are printed alike, on a narrow page and on a wide one. -/
theorem squeeze_format_valueTest :
    ∃ f₁ f₂, ({ columnLimit := 20 } : Settings).format
        [({} : Event).waitingFor (valueTest .equal true) false] = .ok f₁ ∧
      ({} : Settings).format [({} : Event).waitingFor (valueTest .notEqual false) false] = .ok f₂ ∧
        Text.squeeze f₁.text = Text.squeeze f₂.text := by
  have hreadable : ∀ relation negated, (valueTest relation negated).isReadable = true :=
    fun _ _ => rfl
  obtain ⟨f₁, f₂, hf₁, hf₂, hiff⟩ := squeeze_format_eq_iff { columnLimit := 20 } {} rfl rfl {}
    false false (hreadable .equal true) (hreadable .notEqual false)
  exact ⟨f₁, f₂, hf₁, hf₂, hiff.mpr rfl⟩

end Settings

end EventScript
