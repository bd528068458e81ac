import EventScript.Proofs.Listing.Stamps

/-!
What a sink with limited room receives of a listing.

A listing is written piece by piece, up to the first piece that the sink does not take whole. Where
the text is cut makes no difference to what the sink receives, nor to whether it takes everything.

* `Sink.kept`, `Sink.takesWhole`: what a sink keeps of a text, and whether that is all of it;
* `Sink.writeAll`: texts written up to the first one that is refused, and
  `Sink.received_writeAll`, `Sink.writeAll_eq_takesWhole`: it is as if they were written as one
  text;
* `Writer.Wrote`: how printing ends, which is read off the texts of the pieces (`wrote_print`);
* `Settings.formatTo_bounded`: a bounded sink receives the beginning of what a sink with any room
  receives, and either all of it or a fault of writing.
-/

namespace EventScript

namespace Sink

/-- What a sink keeps of a text. -/
def kept (s : Sink) (t : Text) : Text :=
  match s.room with
  | none => t
  | some room => t.take room

/-- Whether a sink takes a text whole. -/
def takesWhole (s : Sink) (t : Text) : Bool :=
  match s.room with
  | none => true
  | some room => decide (t.length ≤ room)

variable (s : Sink) {t : Text}

lemma received_write (t : Text) : (s.write t).1.received = s.received ++ s.kept t := by
  obtain ⟨_ | room, taken⟩ := s
  · exact received_cons none t taken
  · exact received_cons (some (room - t.length)) (t.take room) taken

lemma write_eq_takesWhole (t : Text) : (s.write t).2 = s.takesWhole t := by
  obtain ⟨_ | room, taken⟩ := s <;> rfl

@[simp] lemma kept_nil : s.kept [] = [] := by
  obtain ⟨_ | room, taken⟩ := s
  · rfl
  · exact List.take_nil

@[simp] lemma takesWhole_nil : s.takesWhole [] = true := by
  obtain ⟨_ | room, taken⟩ := s
  · rfl
  · exact decide_eq_true (Nat.zero_le room)

/-- Behind a text that was taken whole, a sink keeps of the next one what it would have kept of it
in one piece with the first. -/
lemma kept_append_of_takesWhole (h : s.takesWhole t = true) (u : Text) :
    s.kept (t ++ u) = s.kept t ++ (s.write t).1.kept u := by
  obtain ⟨_ | room, taken⟩ := s
  · rfl
  · exact List.take_append

lemma takesWhole_append_of_takesWhole (h : s.takesWhole t = true) (u : Text) :
    s.takesWhole (t ++ u) = (s.write t).1.takesWhole u := by
  obtain ⟨_ | room, taken⟩ := s
  · rfl
  · have hfits : t.length ≤ room := of_decide_eq_true h
    refine decide_eq_decide.mpr ?_
    show (t ++ u).length ≤ room ↔ u.length ≤ room - t.length
    rw [List.length_append]
    omega

/-- Of what stands behind a text that is not taken whole, a sink keeps nothing. -/
lemma kept_append_of_refused (h : s.takesWhole t = false) (u : Text) :
    s.kept (t ++ u) = s.kept t := by
  obtain ⟨_ | room, taken⟩ := s
  · cases h
  · have hroom : ¬ t.length ≤ room := of_decide_eq_false h
    exact List.take_append_of_le_length (by omega)

lemma takesWhole_append_of_refused (h : s.takesWhole t = false) (u : Text) :
    s.takesWhole (t ++ u) = false := by
  obtain ⟨_ | room, taken⟩ := s
  · cases h
  · have hroom : ¬ t.length ≤ room := of_decide_eq_false h
    refine decide_eq_false ?_
    rw [List.length_append]
    omega

/-! ### Several texts -/

/-- Writes texts one after the other, up to the first one that the sink does not take whole, and
tells whether it took all of them. -/
def writeAll : Sink → List Text → Sink × Bool
  | s, [] => (s, true)
  | s, t :: rest =>
    match s.write t with
    | (after, false) => (after, false)
    | (after, true) => after.writeAll rest

lemma writeAll_cons_of_refused (h : s.takesWhole t = false) (rest : List Text) :
    s.writeAll (t :: rest) = ((s.write t).1, false) := by
  have hwrite : s.write t = ((s.write t).1, false) :=
    Prod.ext rfl ((s.write_eq_takesWhole t).trans h)
  rw [writeAll, hwrite]

lemma writeAll_cons_of_takesWhole (h : s.takesWhole t = true) (rest : List Text) :
    s.writeAll (t :: rest) = (s.write t).1.writeAll rest := by
  have hwrite : s.write t = ((s.write t).1, true) :=
    Prod.ext rfl ((s.write_eq_takesWhole t).trans h)
  rw [writeAll, hwrite]

/-- **A sink receives texts as if they were one.** -/
theorem received_writeAll (ts : List Text) :
    (s.writeAll ts).1.received = s.received ++ s.kept ts.flatten := by
  induction ts generalizing s with
  | nil => rw [List.flatten_nil, kept_nil, List.append_nil]; rfl
  | cons t rest ih =>
      rw [List.flatten_cons]
      cases h : s.takesWhole t with
      | false =>
          rw [writeAll_cons_of_refused s h, kept_append_of_refused s h]
          exact s.received_write t
      | true =>
          rw [writeAll_cons_of_takesWhole s h, ih, received_write, kept_append_of_takesWhole s h,
            List.append_assoc]

/-- **A sink takes all of some texts exactly if it takes them whole as one.** -/
theorem writeAll_eq_takesWhole (ts : List Text) : (s.writeAll ts).2 = s.takesWhole ts.flatten := by
  induction ts generalizing s with
  | nil => exact s.takesWhole_nil.symm
  | cons t rest ih =>
      rw [List.flatten_cons]
      cases h : s.takesWhole t with
      | false => rw [writeAll_cons_of_refused s h, takesWhole_append_of_refused s h]
      | true => rw [writeAll_cons_of_takesWhole s h, ih, takesWhole_append_of_takesWhole s h]

/-- Further texts are written if all in front of them were taken. -/
lemma writeAll_append (ts us : List Text) : s.writeAll (ts ++ us) =
    if (s.writeAll ts).2 then (s.writeAll ts).1.writeAll us else s.writeAll ts := by
  induction ts generalizing s with
  | nil => rfl
  | cons t rest ih =>
      rw [List.cons_append]
      cases h : s.takesWhole t with
      | false =>
          rw [writeAll_cons_of_refused s h, writeAll_cons_of_refused s h]
          rfl
      | true => rw [writeAll_cons_of_takesWhole s h, writeAll_cons_of_takesWhole s h, ih]

end Sink

/-! ### Listings -/

namespace Listing

/-- The texts that are written of a listing, one for each piece. -/
def pieceTexts (l : Listing) : List Text := l.flatMap fun s => s.pieces.map Piece.text

lemma flatten_pieceTexts (l : Listing) : l.pieceTexts.flatten = l.text := by
  induction l with
  | nil => rfl
  | cons s l ih =>
      have hsection : (s.pieces.map Piece.text).flatten = s.text := List.flatMap_def.symm
      rw [pieceTexts, List.flatMap_cons, List.flatten_append, hsection, ← pieceTexts, ih]
      rfl

end Listing

namespace Writer

/-- How printing ends that writes texts behind `a` line ends: the sink was handed these texts, and
if it took all of them, their line ends are counted and the maps are returned. -/
structure Wrote (w : Writer) (a : Nat) (texts : List Text) (maps : List LineMap)
    (result : Writer × Option (List LineMap)) : Prop where
  sink : result.1.sink = (w.sink.writeAll texts).1
  line : (w.sink.writeAll texts).2 = true →
    result.1.line = .ofNat (a + Text.lineEnds texts.flatten)
  maps : result.2 = if (w.sink.writeAll texts).2 then some maps else none

namespace Wrote

variable {w after : Writer} {a : Nat} {texts further : List Text} {maps maps' : List LineMap}
  {result : Writer × Option (List LineMap)}

lemma nil (hline : w.line = .ofNat a) : w.Wrote a [] [] (w, some []) := ⟨rfl, fun _ => hline, rfl⟩

/-- Behind a text that is refused nothing is written. -/
lemma refused (h : w.Wrote a texts maps (after, none)) (further : List Text)
    (maps' : List LineMap) : w.Wrote a (texts ++ further) maps' (after, none) := by
  have hrefused : (w.sink.writeAll texts).2 = false := by
    cases htaken : (w.sink.writeAll texts).2 with
    | false => rfl
    | true =>
        have hmaps := h.maps
        rw [htaken] at hmaps
        cases hmaps
  have hall : w.sink.writeAll (texts ++ further) = w.sink.writeAll texts := by
    rw [Sink.writeAll_append, hrefused]
    rfl
  refine ⟨by rw [hall, h.sink], ?_, ?_⟩
  · rw [hall, hrefused]
    exact fun htaken => by cases htaken
  · rw [hall, hrefused]
    rfl

/-- Where maps are returned, all texts were taken. -/
lemma writeAll_eq_true {printed : List LineMap} (h : w.Wrote a texts maps (after, some printed)) :
    (w.sink.writeAll texts).2 = true ∧ printed = maps := by
  have hmaps := h.maps
  cases htaken : (w.sink.writeAll texts).2 with
  | false =>
      rw [htaken] at hmaps
      cases hmaps
  | true =>
      rw [htaken] at hmaps
      exact ⟨rfl, Option.some.inj hmaps⟩

/-- Texts that were all taken, and further ones behind them. -/
lemma append {printed : List LineMap} (h : w.Wrote a texts maps (after, some printed))
    (h' : after.Wrote (a + Text.lineEnds texts.flatten) further maps' result)
    (front : List LineMap) :
    w.Wrote a (texts ++ further) (front ++ maps') (result.1, result.2.map (front ++ ·)) := by
  have htaken := h.writeAll_eq_true.1
  have hall : w.sink.writeAll (texts ++ further) = after.sink.writeAll further := by
    rw [Sink.writeAll_append, htaken, if_pos rfl, ← h.sink]
  refine ⟨by rw [hall, h'.sink], ?_, ?_⟩
  · rw [hall, List.flatten_append, Text.lineEnds_append, ← Nat.add_assoc]
    exact h'.line
  · rw [hall, h'.maps]
    split <;> rfl

end Wrote

variable {w : Writer} {a : Nat}

/-- One text is written. -/
lemma wrote_write (hline : w.line = .ofNat a) (t : Text) (maps : List LineMap) :
    w.Wrote a [t] maps ((w.write t).1, if (w.write t).2 then some maps else none) := by
  have htaken : (w.write t).2 = w.sink.takesWhole t := w.sink.write_eq_takesWhole t
  have hend : (w.write t).1.line = .ofNat (a + Text.lineEnds t) := by
    rw [line_write, hline, UInt32.ofNat_add]
  have hall : (w.sink.writeAll [t]).2 = w.sink.takesWhole t := by
    rw [Sink.writeAll_eq_takesWhole, List.flatten_singleton]
  refine ⟨?_, fun _ => by rw [List.flatten_singleton, hend], by rw [hall, htaken]⟩
  cases h : w.sink.takesWhole t with
  | false => rw [Sink.writeAll_cons_of_refused _ h]; rfl
  | true => rw [Sink.writeAll_cons_of_takesWhole _ h]; rfl

/-- Pieces are written text by text. -/
lemma wrote_printPieces (hline : w.line = .ofNat a) (pieces : List Listing.Piece) :
    w.Wrote a (pieces.map Listing.Piece.text) (Listing.pieceMaps a pieces)
      (w.printPieces pieces) := by
  induction pieces generalizing w a with
  | nil => exact .nil hline
  | cons p pieces ih =>
      have hfirst := wrote_write hline p.text []
      rw [List.map_cons, ← List.singleton_append, printPieces]
      rcases hwrite : w.write p.text with ⟨after, taken⟩
      rw [hwrite] at hfirst
      cases taken with
      | false => exact hfirst.refused _ _
      | true =>
          have hnext : after.line = .ofNat (a + Text.lineEnds p.text) := by
            have hwritten := w.line_write p.text
            rwa [hwrite, hline, ← UInt32.ofNat_add] at hwritten
          have hflatten : [p.text].flatten = p.text := List.flatten_singleton
          rw [Listing.pieceMaps, ← mapsBetween_eq p.source? hline hnext]
          exact hfirst.append (by rw [hflatten]; exact ih hnext) _

/-- A listing is written text by text. -/
lemma wrote_print (hline : w.line = .ofNat a) (l : Listing) :
    w.Wrote a l.pieceTexts (Listing.mapsFrom a l) (w.print l) := by
  induction l generalizing w a with
  | nil => exact .nil hline
  | cons s l ih =>
      have hfirst := wrote_printPieces hline s.pieces
      rw [Listing.pieceTexts, List.flatMap_cons, print]
      rcases hprint : w.printPieces s.pieces with ⟨after, _ | maps⟩
      · rw [hprint] at hfirst
        exact hfirst.refused _ _
      · rw [hprint] at hfirst
        obtain ⟨htaken, rfl⟩ := hfirst.writeAll_eq_true
        have hnext : after.line = .ofNat (a + Text.lineEnds s.text) := by
          rw [hfirst.line htaken, ← List.flatMap_def]
          rfl
        rw [Listing.mapsFrom, ← mapsBetween_eq s.source hline hnext]
        refine hfirst.append ?_ _
        rw [← List.flatMap_def]
        exact ih hnext

end Writer

/-! ### Events -/

namespace Settings

variable (k : Settings)

/-- What a sink receives of consecutive events, and how writing them ends, is read off the text of
their draft. -/
lemma formatTo_eq (events : List Event) (sink : Sink) :
    (k.formatTo events sink).1.received =
        sink.received ++ sink.kept (k.draft events).listing.text ∧
      (k.formatTo events sink).2 =
        if sink.takesWhole (k.draft events).listing.text then
          match (k.draft events).fault with
          | some fault => .error (.event fault)
          | none => .ok (Listing.mapsFrom 0 (k.draft events).listing)
        else .error .write := by
  obtain ⟨hsink, -, hmaps⟩ :=
    Writer.wrote_print (w := Writer.ofSink sink) (a := 0) rfl (k.draft events).listing
  have hreceived := sink.received_writeAll (k.draft events).listing.pieceTexts
  have htaken := sink.writeAll_eq_takesWhole (k.draft events).listing.pieceTexts
  rw [Listing.flatten_pieceTexts] at hreceived htaken
  rw [formatTo]
  rcases hprint : (Writer.ofSink sink).print (k.draft events).listing with ⟨w, printed⟩
  rw [hprint] at hsink hmaps
  have hsink : w.sink = (sink.writeAll (k.draft events).listing.pieceTexts).1 := hsink
  have hmaps : printed = if (sink.writeAll (k.draft events).listing.pieceTexts).2 then
      some (Listing.mapsFrom 0 (k.draft events).listing) else none := hmaps
  rw [← hreceived, ← hsink]
  rw [htaken] at hmaps
  cases hwhole : sink.takesWhole (k.draft events).listing.text with
  | false =>
      obtain rfl : printed = none := by rw [hmaps, hwhole]; rfl
      exact ⟨rfl, rfl⟩
  | true =>
      obtain rfl : printed = some (Listing.mapsFrom 0 (k.draft events).listing) := by
        rw [hmaps, hwhole]
        rfl
      cases (k.draft events).fault <;> exact ⟨rfl, rfl⟩

/-- **A bounded sink receives the beginning of the text.** A sink with any room receives all that is
printed up to the first refused event. A bounded one receives as much of it as there is room for,
and the outcome is a fault of writing if that is not all of it, and otherwise the same. -/
theorem formatTo_bounded (events : List Event) (limit : Nat) :
    (k.formatTo events .unbounded).1.received = (k.draft events).listing.text ∧
      (k.formatTo events .unbounded).2 ≠ .error .write ∧
      (k.formatTo events (.bounded limit)).1.received =
        (k.formatTo events .unbounded).1.received.take limit ∧
      (k.formatTo events (.bounded limit)).2 =
        if limit < (k.formatTo events .unbounded).1.received.length then .error .write
        else (k.formatTo events .unbounded).2 := by
  obtain ⟨hreceived, hresult⟩ := k.formatTo_eq events .unbounded
  obtain ⟨hreceived', hresult'⟩ := k.formatTo_eq events (.bounded limit)
  have hwhole : (k.formatTo events .unbounded).1.received = (k.draft events).listing.text :=
    hreceived
  have hkept : (k.formatTo events (.bounded limit)).1.received =
      (k.draft events).listing.text.take limit := hreceived'
  have htakes : (Sink.bounded limit).takesWhole (k.draft events).listing.text =
      decide ((k.draft events).listing.text.length ≤ limit) := rfl
  refine ⟨hwhole, ?_, by rw [hkept, hwhole], ?_⟩
  · rw [hresult]
    cases (k.draft events).fault <;> exact fun h => by cases h
  · rw [hresult', hresult, hwhole, htakes]
    by_cases hroom : (k.draft events).listing.text.length ≤ limit
    · rw [if_pos (decide_eq_true hroom), if_neg (by omega)]
      rfl
    · rw [if_neg (by simpa using hroom), if_pos (by omega)]

end Settings

end EventScript
