import EventScript.Proofs.Condition.Flipped
import EventScript.Proofs.Layout.Ink
import EventScript.Proofs.Layout.OneLine
import EventScript.Proofs.Listing.Reprint

/-!
A negation turned over shows in the formatted text, or it does not count.

Turning over one negation in the condition of a statement, however deep it stands, adds a sign to
the line of the statement or takes one away, wherever the line is broken. Only a call that ends the
event or jumps under the sentinel for no condition is printed without its condition, negated or not.

* `Statement.isUnconditional`: such a call;
* `Statement.exists_around_condition`, `Statement.layout_of_isUnconditional`: where the condition of
  a statement stands in its layout;
* `Statement.signsDiffer_layout`: the layout of a statement with a negation turned over;
* `Settings.refusal?_modify_under`: the event is accepted exactly if it was before;
* `Settings.text_format_flipped`: the formatted texts are the same exactly for such a call.
-/

namespace EventScript

/-! ### The line of the statement -/

/-- A call that ends the event or jumps, under the sentinel for no condition. -/
def Statement.isUnconditional : Statement → Bool
  | simple _ (.finish _ c) => c.isAlways
  | simple _ (.jump _ c) => c.isAlways
  | _ => false

/-- The statement under another condition. -/
def Statement.under (d : Condition) (s : Statement) : Statement := s.mapCondition fun _ => d

namespace Statement

variable {s : Statement} {c d : Condition}

@[simp] lemma tags_under (d : Condition) (s : Statement) : (s.under d).tags = s.tags := by
  cases s <;> rfl

lemma under_self (hc : s.condition? = some c) : s.under c = s := by
  cases s with
  | simple tags a =>
      cases a with
      | finish ending c' => obtain rfl := Option.some.inj hc; rfl
      | assign group variableName op c' => obtain rfl := Option.some.inj hc; rfl
      | jump target c' => obtain rfl := Option.some.inj hc; rfl
      | wait c' isSpecial => obtain rfl := Option.some.inj hc; rfl
      | _ => cases hc
  | loop tags code body => cases hc
  | choice tags c' yes no => obtain rfl := Option.some.inj hc; rfl

/-- **The condition of a statement stands in its layout**, with the same around it whatever it is,
but for an unconditional call. -/
lemma exists_around_condition (hc : s.condition? = some c) (hshown : s.isUnconditional = false) :
    ∃ before behind, ∀ ⦃d : Condition⦄, d.isAlways = c.isAlways →
      (s.under d).layout.oneLine = before ++ (d.layout true).oneLine ++ behind ∧
        (s.under d).layout.allRemarks = (d.layout true).allRemarks := by
  cases s with
  | simple tags a =>
      cases a with
      | finish ending c' =>
          obtain rfl := Option.some.inj hc
          refine ⟨ending.callName false ++ ['('], ");".toList, fun d hd => ?_⟩
          rw [show c'.isAlways = false from hshown] at hd
          simp [under, mapCondition, Action.mapCondition, layout, Action.layout, hd]
      | assign group variableName op c' =>
          obtain rfl := Option.some.inj hc
          refine ⟨Action.assignHead group variableName op, [';'], fun d _ => ?_⟩
          simp [under, mapCondition, Action.mapCondition, layout, Action.layout]
      | jump target c' =>
          obtain rfl := Option.some.inj hc
          refine ⟨target.callHead false ++ ", ".toList, ");".toList, fun d hd => ?_⟩
          rw [show c'.isAlways = false from hshown] at hd
          simp [under, mapCondition, Action.mapCondition, layout, Action.layout, hd]
      | wait c' isSpecial =>
          obtain rfl := Option.some.inj hc
          refine ⟨"WaitFor(".toList, ");".toList, fun d _ => ?_⟩
          simp [under, mapCondition, Action.mapCondition, layout, Action.layout]
      | _ => cases hc
  | loop tags code body => cases hc
  | choice tags c' yes no =>
      obtain rfl := Option.some.inj hc
      refine ⟨"if (".toList, ')' :: Text.blockOpen, fun d _ => ?_⟩
      simp [under, mapCondition, layout]

/-- The condition of an unconditional call does not. -/
lemma layout_of_isUnconditional (hc : s.condition? = some c) (hhidden : s.isUnconditional = true)
    (hd : d.isAlways = c.isAlways) (hremarks : d.remarks = c.remarks) :
    (s.under d).layout = s.layout := by
  cases s with
  | simple tags a =>
      cases a with
      | finish ending c' =>
          obtain rfl := Option.some.inj hc
          have hc' : c'.isAlways = true := hhidden
          simp [under, mapCondition, Action.mapCondition, layout, Action.layout,
            Action.text.eq_def, hd, hc', hremarks]
      | jump target c' =>
          obtain rfl := Option.some.inj hc
          have hc' : c'.isAlways = true := hhidden
          simp [under, mapCondition, Action.mapCondition, layout, Action.layout,
            Action.text.eq_def, hd, hc', hremarks]
      | _ => cases hhidden
  | loop tags code body => cases hhidden
  | choice tags c' yes no => cases hhidden

/-- **A negation turned over shows on the line of a statement**, but for an unconditional call, and
it leaves the remarks on the line alone. -/
lemma signsDiffer_layout (hc : s.condition? = some c) (h : c.Flipped d)
    (hshown : s.isUnconditional = false) :
    Text.SignsDiffer s.layout.oneLine (s.under d).layout.oneLine ∧
      (s.under d).layout.allRemarks = s.layout.allRemarks := by
  obtain ⟨before, behind, haround⟩ := exists_around_condition hc hshown
  have hold := haround (d := c) rfl
  have hnew := haround h.isAlways
  rw [under_self hc] at hold
  rw [hold.1, hnew.1, hold.2, hnew.2]
  exact ⟨(h.signsDiffer true).around before behind, h.allRemarks_layout true⟩

/-- **The printed line is the same exactly for an unconditional call**, wherever it is broken. -/
theorem text_headPiece_under_iff (hc : s.condition? = some c) (h : c.Flipped d) {p : Layout.Page}
    (hp : Text.squeeze p.indent = []) (depth : Nat) (before : Text) :
    (Listing.headPiece p (p.indentAt depth) before (s.under d)).text =
      (Listing.headPiece p (p.indentAt depth) before s).text ↔ s.isUnconditional = true := by
  have hsp := Layout.Page.squeeze_indentAt hp depth
  constructor
  · intro heq
    by_contra hshown
    rw [Bool.not_eq_true] at hshown
    obtain ⟨⟨x, hx, hne⟩, hremarks⟩ := signsDiffer_layout hc h hshown
    have hblank := Text.isBlank_of_mem_signs hx
    have hold := Layout.Tree.count_renderLine hblank hp (isTidy_layout s) hsp before
      s.tags.remarks
    have hnew := Layout.Tree.count_renderLine hblank hp (isTidy_layout (s.under d)) hsp before
      s.tags.remarks
    have hcount := congrArg (List.count x) heq
    simp only [Listing.headPiece, Listing.Piece.text, tags_under] at hcount
    rw [hold, hnew, hremarks] at hcount
    omega
  · intro hhidden
    rw [Listing.headPiece, Listing.headPiece, tags_under,
      layout_of_isUnconditional hc hhidden h.isAlways h.remarks_eq]

end Statement

/-! ### The event -/

namespace Statement

/-- A negation does not count for what a statement refers to. -/
lemma sameReferences_under {s : Statement} {c d : Condition} (hc : s.condition? = some c)
    (h : c.Flipped d) : s.SameReferences (s.under d) where
  target := s.target?_mapCondition _
  labels := s.declaredLabels_mapCondition _
  assigned := s.assignedVariable?_mapCondition _
  reads name := by
    rw [under, condition?_mapCondition, hc]
    simpa using h.reads_iff name

end Statement

/-- An event with a negation turned over is accepted exactly if it was before. -/
lemma Settings.refusal?_modify_under (k : Settings) {e : Event} {q : Position} {s : Statement}
    (hs : e.get? q = some s) {c d : Condition} (hc : s.condition? = some c) (h : c.Flipped d) :
    k.refusal? (e.modify (Statement.under d) q) = none ↔ k.refusal? e = none := by
  have hbodies : (s.under d).bodies = s.bodies := by cases s <;> rfl
  have hwalk := Body.forall₂_walk_modify (fun _ _ => Statement.sameReferences_of_shell) hbodies
    (Statement.sameReferences_under hc h) hs
  rw [refusal?, refusal?]
  split
  · exact Event.referenceFault?_eq_none_congr hwalk
  · exact Iff.rfl

namespace Settings

/-- **A negation turned over shows in the formatted text**, exactly but for the one in front of the
sentinel of an unconditional call. -/
theorem text_format_flipped {k : Settings} {e : Event} {q : Position} {s : Statement}
    {c d : Condition} (hs : e.get? q = some s) (hc : s.condition? = some c) (h : c.Flipped d)
    {f : Formatted} (hf : k.format [e] = .ok f) :
    ∃ g, k.format [e.modify (Statement.under d) q] = .ok g ∧
      (g.text = f.text ↔ s.isUnconditional = true) := by
  obtain ⟨haccepted, htext⟩ := refusal?_of_format k hf
  obtain ⟨maps, hg⟩ := k.format_of_accepted ((k.refusal?_modify_under hs hc h).mpr haccepted)
  refine ⟨_, hg, ?_⟩
  rw [htext]
  exact Listing.text_ofEvent_modify_iff k hs (Statement.reprints_mapCondition hc _)
    fun depth before => Statement.text_headPiece_under_iff hc h
      (Layout.Page.squeeze_indent_ofSettings k) depth before

/-- A flag, or few points left. -/
def flagOrFew (negated : Bool) : Condition :=
  .combine .any [.atom (.query ⟨"Flag".toList, []⟩) false [],
    .atom (.compare .less (.value (.expression "hp".toList)) (.int 1)) negated []] false []

/-- An event that ends if a flag is set or few points are left. -/
def guarded : Event where
  body := [.choice {} (flagOrFew false) [.simple {} (.finish .stop .always)] []]

/-- The comparison in the test of `guarded` turned over shows. -/
theorem text_format_flipped_guarded :
    (flagOrFew false).Flipped (flagOrFew true) ∧ ∃ f g, format {} [guarded] = .ok f ∧
      format {} [guarded.modify (Statement.under (flagOrFew true)) (.here 0)] = .ok g ∧
        g.text ≠ f.text := by
  have hflip : (flagOrFew false).Flipped (flagOrFew true) :=
    .part .any [_] [] false [] (.here (.atom _ false []))
  obtain ⟨f, hf⟩ : ∃ f, format {} [guarded] = .ok f := ⟨_, rfl⟩
  obtain ⟨g, hg, hsame⟩ := text_format_flipped (q := .here 0) rfl rfl hflip hf
  refine ⟨hflip, f, g, hf, hg, fun heq => ?_⟩
  cases hsame.mp heq

/-- An event that ends at once, or never. -/
def leaving (negated : Bool) : Event where
  body := [.simple {} (.finish .stop (.atom .always negated []))]

/-- The negation of the sentinel in `leaving` does not show. -/
theorem text_format_flipped_leaving :
    Condition.always.Flipped (.atom .always true []) ∧
      leaving true = (leaving false).modify (Statement.under (.atom .always true [])) (.here 0) ∧
      (∃ f, format {} [leaving false] = .ok f ∧ format {} [leaving true] = .ok f ∧
        f.text = "Event(0, Default, function() {
    EndEvent();
});
".toList) :=
  ⟨.here .always, rfl, _, rfl, rfl, rfl⟩

end Settings

end EventScript
