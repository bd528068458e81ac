import EventScript.Proofs.Listing.Mapped
import EventScript.Proofs.Text.Squeeze
import Mathlib.Data.List.Forall2

/-!
Events formatted one behind the other.

One writer prints all events of a list, and its count of line ends goes on from event to event. What
it prints of an event is what is printed of that event alone, some lines further down.

* `LineMap.numbers`, `LineMap.numbersBelow`: the lines of a map as numbers, as they are and some
  lines further down;
* `Listing.map_numbers_mapsFrom`: the maps of a listing that is printed below other lines;
* `Settings.formatted`: one event formatted alone;
* `Settings.composes`: formatting a list of events puts together what the events give alone, and it
  fails with the first event that does.
-/

namespace EventScript

/-! ### Maps further down -/

namespace LineMap

/-- The lines of a map, as numbers. -/
def numbers (m : LineMap) : (UInt32 × UInt32) × Nat × Nat :=
  (m.sourceRange, m.printed.toNat, m.printedEnd.toNat)

/-- The lines of a map if it is printed below `n` other lines. -/
def numbersBelow (n : Nat) (m : LineMap) : (UInt32 × UInt32) × Nat × Nat :=
  (m.sourceRange, m.printed.toNat + n, m.printedEnd.toNat + n)

/-- What is printed `n` lines further down has its lines there. -/
lemma numbers_printedAt_add (m : LineMap) {n a b : Nat} (hab : a ≤ b)
    (h : n + b < 2 ^ 32 - 1) :
    (m.printedAt (n + a) (n + b)).numbers = (m.printedAt a b).numbersBelow n := by
  have hstart := m.toNat_printed_printedAt (a := a) (by omega) b
  have hend := m.toNat_printedEnd_printedAt (a := a) (b := b) (by omega) (by omega)
  have hstart' := m.toNat_printed_printedAt (a := n + a) (by omega) (n + b)
  have hend' := m.toNat_printedEnd_printedAt (a := n + a) (b := n + b) (by omega) (by omega)
  rw [numbers, numbersBelow, hstart, hend, hstart', hend']
  simp only [sourceRange_printedAt, Prod.mk.injEq, true_and]
  omega

end LineMap

namespace Listing

/-- The maps of pieces that are printed below `n` other lines. -/
lemma map_numbers_pieceMaps (n a : Nat) (ps : List Piece)
    (h : n + a + Text.lineEnds (ps.flatMap Piece.text) < 2 ^ 32 - 1) :
    (pieceMaps (n + a) ps).map LineMap.numbers =
      (pieceMaps a ps).map (LineMap.numbersBelow n) := by
  induction ps generalizing a with
  | nil => rfl
  | cons p ps ih =>
      rw [List.flatMap_cons, Text.lineEnds_append] at h
      have hrest := ih (a + Text.lineEnds p.text) (by omega)
      rw [pieceMaps, pieceMaps, List.map_append, List.map_append, Nat.add_assoc, hrest]
      congr 1
      cases p.source? with
      | none => rfl
      | some m =>
          have hnumbers := m.numbers_printedAt_add (n := n) (a := a)
            (b := a + Text.lineEnds p.text) (by omega) (by omega)
          simpa using hnumbers

/-- **The maps of a listing that is printed below `n` other lines** are those of the listing, `n`
lines further down. -/
theorem map_numbers_mapsFrom (n a : Nat) (l : Listing)
    (h : n + a + Text.lineEnds (text l) < 2 ^ 32 - 1) :
    (mapsFrom (n + a) l).map LineMap.numbers =
      (mapsFrom a l).map (LineMap.numbersBelow n) := by
  induction l generalizing a with
  | nil => rfl
  | cons s l ih =>
      have htext : text (s :: l) = s.text ++ text l := rfl
      rw [htext, Text.lineEnds_append] at h
      have hrest := ih (a + Text.lineEnds s.text) (by omega)
      have hpieces := map_numbers_pieceMaps n a s.pieces
        (by show n + a + Text.lineEnds s.text < 2 ^ 32 - 1; omega)
      rw [mapsFrom, mapsFrom, List.map_append, List.map_append, List.map_append, List.map_append,
        Nat.add_assoc, hrest, hpieces]
      congr 2
      cases s.source with
      | none => rfl
      | some m =>
          have hnumbers := m.numbers_printedAt_add (n := n) (a := a)
            (b := a + Text.lineEnds s.text) (by omega) (by omega)
          simpa using hnumbers

/-! ### Texts and maps of events -/

/-- The text of events, an empty line in front of each. -/
lemma text_ofEvents_gap (k : Settings) (events : List Event) :
    text (ofEvents k Settings.gap events) =
      events.flatMap fun e => ['\n'] ++ text (ofEvent k e) := by
  induction events with
  | nil => rfl
  | cons e events ih =>
      rw [ofEvents, text_append, text_append, ih, List.flatMap_cons]
      rfl

/-- **The text of events** is their texts with an empty line between neighbours. -/
lemma text_ofEvents (k : Settings) (events : List Event) :
    text (ofEvents k [] events) =
      ['\n'].intercalate (events.map fun e => text (ofEvent k e)) := by
  cases events with
  | nil => rfl
  | cons e events =>
      rw [ofEvents, text_append, text_ofEvents_gap, List.map_cons, Text.intercalate_cons,
        List.flatMap_map, List.nil_append]

end Listing

/-- The lines of the maps of formatted events, the first one below `n` lines, and each further one
below an empty line and all in front of it. -/
def Formatted.numbersBelow (n : Nat) : List Formatted → List ((UInt32 × UInt32) × Nat × Nat)
  | [] => []
  | f :: fs => f.maps.map (LineMap.numbersBelow n) ++
      Formatted.numbersBelow (n + Text.lineEnds f.text + 1) fs

namespace Settings

variable (k : Settings)

/-- One event formatted alone. -/
def formatted (e : Event) : Formatted :=
  ⟨(Listing.ofEvent k e).text, Listing.mapsFrom 0 (Listing.ofEvent k e)⟩

/-- The maps of events behind others, an empty line in front of each. -/
lemma map_numbers_ofEvents_gap (n : Nat) (events : List Event)
    (h : n + Text.lineEnds (Listing.text (Listing.ofEvents k gap events)) < 2 ^ 32 - 1) :
    (Listing.mapsFrom n (Listing.ofEvents k gap events)).map LineMap.numbers =
      Formatted.numbersBelow (n + 1) (events.map k.formatted) := by
  induction events generalizing n with
  | nil => rfl
  | cons e events ih =>
      have hgap : Text.lineEnds (Listing.text gap) = 1 := rfl
      have hmaps : Listing.mapsFrom n gap = [] := rfl
      rw [Listing.ofEvents, Listing.text_append, Listing.text_append, Text.lineEnds_append,
        Text.lineEnds_append, hgap] at h
      have hfirst := Listing.map_numbers_mapsFrom (n + 1) 0 (Listing.ofEvent k e) (by omega)
      have hrest := ih (n + (1 + Text.lineEnds (Listing.text (Listing.ofEvent k e)))) (by omega)
      rw [Listing.ofEvents, Listing.mapsFrom_append, Listing.mapsFrom_append, hmaps,
        Listing.text_append, Text.lineEnds_append, hgap, List.map_append, hrest, List.nil_append]
      rw [Nat.add_zero] at hfirst
      rw [hfirst, List.map_cons, Formatted.numbersBelow, ← Nat.add_assoc n 1]
      rfl

/-- **The maps of events** are those of each event, below all that is printed in front of it. -/
lemma map_numbers_ofEvents (events : List Event)
    (h : Text.lineEnds (Listing.text (Listing.ofEvents k [] events)) < 2 ^ 32 - 1) :
    (Listing.mapsFrom 0 (Listing.ofEvents k [] events)).map LineMap.numbers =
      Formatted.numbersBelow 0 (events.map k.formatted) := by
  cases events with
  | nil => rfl
  | cons e events =>
      rw [Listing.ofEvents, List.nil_append, Listing.text_append, Text.lineEnds_append] at h
      have hrest := k.map_numbers_ofEvents_gap (Text.lineEnds (Listing.text (Listing.ofEvent k e)))
        events h
      rw [Listing.ofEvents, List.nil_append, Listing.mapsFrom_append, List.map_append,
        Nat.zero_add, hrest, List.map_cons, Formatted.numbersBelow, Nat.zero_add]
      rfl

/-! ### Refused events -/

/-- A draft has the fault of the first event that is refused. -/
lemma fault_draftBehind (lead : Listing) (events : List Event) :
    (k.draftBehind lead events).fault = events.findSome? k.refusal? := by
  induction events generalizing lead with
  | nil => rfl
  | cons e events ih =>
      rw [draftBehind, List.findSome?_cons]
      cases k.refusal? e with
      | some fault => rfl
      | none => exact ih gap

/-- An event that is not refused is formatted alone. -/
lemma format_singleton {e : Event} (h : k.refusal? e = none) :
    k.format [e] = .ok (k.formatted e) := by
  obtain ⟨maps, hformat⟩ := k.format_of_accepted h
  obtain ⟨htext, hmaps⟩ := Listing.eq_ofEvents_of_format hformat
  have hlisting : Listing.ofEvents k [] [e] = Listing.ofEvent k e := by
    rw [Listing.ofEvents, Listing.ofEvents, List.nil_append, List.append_nil]
  rw [hlisting] at hmaps
  rw [hformat, formatted, ← hmaps]

/-- Formatting fails with the fault of the first event that is refused. -/
lemma format_eq_error_iff (events : List Event) (fault : FormatFault) :
    k.format events = .error fault ↔
      ∃ cause, events.findSome? k.refusal? = some cause ∧ fault = .event cause := by
  have hfault : (k.draft events).fault = events.findSome? k.refusal? :=
    k.fault_draftBehind [] events
  cases hcause : events.findSome? k.refusal? with
  | none =>
      obtain ⟨maps, hformat⟩ := k.format_of_none (hfault.trans hcause)
      rw [hformat]
      simp
  | some cause =>
      rw [k.format_of_some (hfault.trans hcause)]
      simp [eq_comm]

/-! ### Events together -/

/-- Formatting events puts together what they give alone. -/
structure Composes (k : Settings) (events : List Event) : Prop where
  /-- Formatting fails exactly if references are checked and those of some event dangle, and then
  with the fault of the first such event. -/
  fails : ∀ fault, k.format events = .error fault ↔ k.verifiesReferences = true ∧
    ∃ cause, events.findSome? Event.referenceFault? = some cause ∧ fault = .event cause
  /-- If formatting does not fail, every event is formatted alone, the text is those of the events
  with an empty line between neighbours, and the maps are those of the events, each below all that
  is printed in front of it. -/
  joins : ∀ ⦃f⦄, k.format events = .ok f →
    ∃ fs, List.Forall₂ (fun e g => k.format [e] = .ok g) events fs ∧
      f.text = ['\n'].intercalate (fs.map Formatted.text) ∧
      (Text.lineEnds f.text < 2 ^ 32 - 1 →
        f.maps.map LineMap.numbers = Formatted.numbersBelow 0 fs)

/-- **Formatting is compositional**: what is printed of an event does not depend on the others, but
for the lines in front of it. -/
theorem composes (events : List Event) : k.Composes events where
  fails fault := by
    rw [format_eq_error_iff]
    cases hverifies : k.verifiesReferences with
    | false =>
        have hnone : events.findSome? k.refusal? = none := by
          rw [List.findSome?_eq_none_iff]
          intro e _
          rw [refusal?, hverifies]
          rfl
        simp [hnone]
    | true =>
        have hsame : k.refusal? = Event.referenceFault? := by
          funext e
          rw [refusal?, hverifies, if_pos rfl]
        simp [hsame]
  joins f hf := by
    obtain ⟨htext, hmaps⟩ := Listing.eq_ofEvents_of_format hf
    have haccepted : ∀ e ∈ events, k.refusal? e = none := by
      rw [← List.findSome?_eq_none_iff]
      cases hcause : events.findSome? k.refusal? with
      | none => rfl
      | some cause =>
          rw [(k.format_eq_error_iff events _).mpr ⟨cause, hcause, rfl⟩] at hf
          cases hf
    refine ⟨events.map k.formatted, ?_, ?_, fun hlines => ?_⟩
    · rw [List.forall₂_map_right_iff, List.forall₂_same]
      intro e he
      exact k.format_singleton (haccepted e he)
    · rw [htext, Listing.text_ofEvents, List.map_map]
      rfl
    · rw [htext] at hlines
      rw [hmaps]
      exact k.map_numbers_ofEvents events hlines

end Settings

end EventScript
