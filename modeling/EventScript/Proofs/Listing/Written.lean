import EventScript.Format
import Mathlib.Tactic.Common

/-!
What is written of a listing.

* `Writer.print_unbounded`: a sink with any room receives the text of a listing;
* `Settings.format_of_none`, `Settings.format_of_some`: so formatting gives the text of the draft,
  or its fault, and nothing else can go wrong;
* `Listing.tellApart_of_runs`: pieces that declare no label are written as they are.
-/

namespace EventScript

namespace Writer

/-- A writer whose sink takes any text. -/
def IsUnbounded (w : Writer) : Prop := w.sink.room = none

/-- A sink with any room takes a text whole. -/
lemma write_of_unbounded {w : Writer} (hw : w.IsUnbounded) (t : Text) :
    ∃ after, w.write t = (after, true) ∧ after.IsUnbounded ∧
      after.sink.received = w.sink.received ++ t := by
  obtain ⟨⟨room, taken⟩, line⟩ := w
  obtain rfl : room = none := hw
  exact ⟨_, rfl, rfl, Sink.received_cons none t taken⟩

/-- Pieces written to a sink with any room. -/
lemma printPieces_unbounded {w : Writer} (hw : w.IsUnbounded) (pieces : List Listing.Piece) :
    ∃ after maps, w.printPieces pieces = (after, some maps) ∧ after.IsUnbounded ∧
      after.sink.received = w.sink.received ++ pieces.flatMap Listing.Piece.text := by
  induction pieces generalizing w with
  | nil => exact ⟨w, [], rfl, hw, by simp⟩
  | cons p pieces ih =>
      obtain ⟨next, hwrite, hnext, hreceived⟩ := write_of_unbounded hw p.text
      obtain ⟨after, maps, hprint, hafter, hreceived'⟩ := ih hnext
      refine ⟨after, mapsBetween p.source? w next ++ maps, ?_, hafter, ?_⟩
      · rw [printPieces, hwrite]
        simp only [hprint, Option.map_some]
      · rw [hreceived', hreceived, List.flatMap_cons, List.append_assoc]

/-- **A sink with any room receives the text of a listing.** -/
lemma print_unbounded {w : Writer} (hw : w.IsUnbounded) (l : Listing) :
    ∃ after maps, w.print l = (after, some maps) ∧ after.IsUnbounded ∧
      after.sink.received = w.sink.received ++ Listing.text l := by
  induction l generalizing w with
  | nil => exact ⟨w, [], rfl, hw, by simp [Listing.text]⟩
  | cons s l ih =>
      obtain ⟨next, maps, hpieces, hnext, hreceived⟩ := printPieces_unbounded hw s.pieces
      obtain ⟨after, further, hprint, hafter, hreceived'⟩ := ih hnext
      refine ⟨after, (mapsBetween s.source w next ++ maps) ++ further, ?_, hafter, ?_⟩
      · rw [print, hpieces]
        simp only [hprint, Option.map_some]
      · rw [hreceived', hreceived, Listing.text, Listing.text, List.flatMap_cons,
          List.append_assoc]
        rfl

end Writer

namespace Settings

variable (k : Settings)

/-- A sink with any room receives the listing of a draft, whatever the fault behind it is. -/
lemma formatTo_unbounded (events : List Event) :
    ∃ sink maps, sink.received = (k.draft events).listing.text ∧
      k.formatTo events .unbounded = (sink,
        match (k.draft events).fault with
        | some fault => .error (.event fault)
        | none => .ok maps) := by
  obtain ⟨after, maps, hprint, -, hreceived⟩ :=
    Writer.print_unbounded (w := Writer.ofSink .unbounded) rfl (k.draft events).listing
  refine ⟨after.sink, maps, hreceived, ?_⟩
  simp only [formatTo, hprint]
  cases (k.draft events).fault <;> rfl

/-- **Events without a fault are formatted as the text of their draft.** -/
theorem format_of_none {events : List Event} (h : (k.draft events).fault = none) :
    ∃ maps, k.format events = .ok ⟨(k.draft events).listing.text, maps⟩ := by
  obtain ⟨sink, maps, hreceived, hformat⟩ := k.formatTo_unbounded events
  rw [h] at hformat
  refine ⟨maps, ?_⟩
  rw [format, hformat, ← hreceived]

/-- Events with a fault are not formatted. -/
theorem format_of_some {events : List Event} {fault : Fault}
    (h : (k.draft events).fault = some fault) : k.format events = .error (.event fault) := by
  obtain ⟨sink, maps, -, hformat⟩ := k.formatTo_unbounded events
  rw [h] at hformat
  rw [format, hformat]

/-! ### One event -/

lemma draft_of_accepted {e : Event} (h : k.refusal? e = none) :
    k.draft [e] = ⟨Listing.ofEvent k e, none⟩ := by
  rw [draft, draftBehind, h]
  simp [draftBehind]

lemma draft_of_refused {e : Event} {fault : Fault} (h : k.refusal? e = some fault) :
    k.draft [e] = ⟨[], some fault⟩ := by
  rw [draft, draftBehind, h]

/-- An accepted event is formatted as the text of its listing. -/
theorem format_of_accepted {e : Event} (h : k.refusal? e = none) :
    ∃ maps, k.format [e] = .ok ⟨(Listing.ofEvent k e).text, maps⟩ := by
  have hdraft := k.draft_of_accepted h
  obtain ⟨maps, hformat⟩ := k.format_of_none (congrArg Draft.fault hdraft)
  exact ⟨maps, by rw [hformat, hdraft]⟩

/-- An event that is formatted was accepted. -/
theorem refusal?_of_format {e : Event} {f : Formatted} (h : k.format [e] = .ok f) :
    k.refusal? e = none ∧ f.text = (Listing.ofEvent k e).text := by
  cases hrefusal : k.refusal? e with
  | none =>
      obtain ⟨maps, hformat⟩ := k.format_of_accepted hrefusal
      rw [hformat] at h
      injection h with h
      exact ⟨rfl, by rw [← h]⟩
  | some fault =>
      rw [k.format_of_some (congrArg Draft.fault (k.draft_of_refused hrefusal))] at h
      cases h

end Settings

/-! ### Pieces that declare nothing -/

namespace Listing

open Layout

/-- Pieces without a declaration of a label are left as they are. -/
lemma tellApart_of_runs {pieces : List Piece} (h : ∀ p ∈ pieces, ∃ source t, p = .run source t)
    (used : List Text) : tellApart used pieces = pieces := by
  induction pieces with
  | nil => rfl
  | cons p pieces ih =>
      obtain ⟨source, t, rfl⟩ := h p List.mem_cons_self
      rw [tellApart, ih fun q hq => h q (List.mem_cons_of_mem _ hq)]

/-- The end of an event declares nothing. -/
lemma exists_run_of_mem_closingPieces {p : Page} {e : Event} {q : Piece}
    (h : q ∈ closingPieces p e) : ∃ source t, q = .run source t := by
  rw [closingPieces, remarkLines, List.mem_append, List.mem_map, List.mem_singleton] at h
  rcases h with ⟨line, -, rfl⟩ | rfl
  · exact ⟨none, _, rfl⟩
  · exact ⟨none, _, rfl⟩

end Listing

end EventScript
