import EventScript.Proofs.Listing.Spot
import EventScript.Proofs.Listing.Stamps

/-!
The line maps of formatted events.

* `Event.mappedLines`: the source lines of an event in the order in which it is printed, and
  `Event.spots`: its statements in that order;
* `Settings.maps_in_order`: formatted events have a map for each of their source lines, in that
  order, and the maps lie within the text;
* `Settings.sourceLine?_of_printed`: the lines of a statement lead back to it, whatever other maps
  hold them, and they are what was laid out for it.
-/

namespace EventScript

/-! ### Events -/

namespace Event

/-- The source lines of the header of an event, which count if there is one, and of its
declaration. -/
def headLines (e : Event) : List LineMap :=
  (if e.header.isSome then e.headerLines.toList else []) ++ e.lines.toList

/-- The source lines of an event: those of its header and of its declaration, and then those of its
statements, each in front of those nested in it. -/
def mappedLines (e : Event) : List LineMap :=
  e.headLines ++ (Body.preorder e.body).filterMap fun s => s.tags.lines

/-- The spots of an event. -/
def spots (e : Event) : List Listing.Spot := Listing.bodySpots 1 [] false e.body

lemma filterMap_source?_spots (e : Event) : e.spots.filterMap Listing.Spot.source? =
    (Body.preorder e.body).filterMap fun s => s.tags.lines := by
  rw [← Listing.map_statement_bodySpots e.body 1 [] false, List.filterMap_map]
  rfl

end Event

namespace Listing

open Layout

/-! ### The listing of an event -/

/-- A line that belongs to nothing stays behind when repeated labels are told apart. -/
lemma tellApart_concat_plain (used : List Text) (ps : List Piece) (t : Text) :
    tellApart used (ps ++ [.plain t]) = tellApart used ps ++ [.plain t] := by
  induction ps generalizing used with
  | nil => rfl
  | cons q ps ih =>
      cases q with
      | run source u => rw [List.cons_append, tellApart, tellApart, ih, List.cons_append]
      | label name suffix => rw [List.cons_append, tellApart, tellApart, ih, List.cons_append]

/-- The declaration of an event as it is printed. -/
def declaredPieces (k : Settings) (e : Event) : List Piece :=
  if k.labelNaming.appliesTo e.id then tellApart [] (declarationPieces (.ofSettings k) e)
  else declarationPieces (.ofSettings k) e

lemma ofEvent_eq (k : Settings) (e : Event) :
    ofEvent k e = headerSection e ++ [⟨e.lines, declaredPieces k e⟩] := rfl

lemma text_ofEvent (k : Settings) (e : Event) : (ofEvent k e).text =
    text (headerSection e) ++ (declaredPieces k e).flatMap Piece.text := by
  rw [ofEvent_eq, text_append]
  exact congrArg (text (headerSection e) ++ ·) (List.flatMap_singleton ..)

lemma aligned_declarationPieces (p : Page) (e : Event) :
    Aligned p e.spots (declarationPieces p e) := by
  have hopening : Text.IsWhole (openingLine e) := by
    right
    rw [openingLine, List.getLast?_append]
    rfl
  have hclosing : Aligned p [] (closingPieces p e) :=
    (Aligned.remarkLines _ _).append (.plain (Text.isWhole_concat _) .nil)
  have hbody := (aligned_bodyPieces (p := p) e.body 1 [] false).append hclosing
  rw [List.append_nil] at hbody
  exact .plain hopening hbody

/-- The declaration of an event is aligned, whether its labels are told apart or not. -/
lemma aligned_declaredPieces (k : Settings) (e : Event) :
    Aligned (.ofSettings k) e.spots (declaredPieces k e) := by
  have h := aligned_declarationPieces (.ofSettings k) e
  rw [declaredPieces]
  split
  · exact h.tellApart []
  · exact h

lemma isClosed_declaration (k : Settings) (e : Event) :
    Section.IsClosed ⟨e.lines, declaredPieces k e⟩ := by
  refine ⟨(aligned_declaredPieces k e).isWhole, ?_⟩
  have hends (p : Page) : ∃ front t, declarationPieces p e = front ++ [.plain (t ++ ['\n'])] :=
    ⟨.plain (openingLine e) :: (bodyPieces p 1 [] false e.body ++
        remarkLines p.indent e.closingRemarks),
      Event.closingMark ++ Remark.suffix e.closingRemarks,
      by simp [declarationPieces, closingPieces]⟩
  obtain ⟨front, t, hpieces⟩ := hends (.ofSettings k)
  show ∃ front t, declaredPieces k e = front ++ [.plain (t ++ ['\n'])]
  rw [declaredPieces, hpieces]
  split
  · exact ⟨_, t, tellApart_concat_plain [] front _⟩
  · exact ⟨front, t, rfl⟩

lemma isClosed_headerSection (e : Event) : IsClosed (headerSection e) := by
  intro s hs
  rw [headerSection] at hs
  cases hheader : e.header with
  | none =>
      rw [hheader] at hs
      cases hs
  | some header =>
      rw [hheader] at hs
      obtain rfl := List.mem_singleton.mp hs
      obtain ⟨t, ht⟩ := List.getLast?_eq_some_iff.mp (getLast?_headerText header)
      refine ⟨fun q hq => ?_, [], t, by rw [ht]; rfl⟩
      obtain rfl := List.mem_singleton.mp hq
      exact Or.inr (getLast?_headerText header)

lemma isClosed_ofEvent (k : Settings) (e : Event) : IsClosed (ofEvent k e) := by
  rw [ofEvent_eq]
  refine (isClosed_headerSection e).append fun s hs => ?_
  rw [List.mem_singleton.mp hs]
  exact isClosed_declaration k e

lemma sources_headerSection (e : Event) : sources (headerSection e) =
    if e.header.isSome then e.headerLines.toList else [] := by
  rw [headerSection]
  cases e.header with
  | none => rfl
  | some header => simp [sources, Piece.plain, Piece.source?]

/-- The source lines in the listing of an event. -/
lemma sources_ofEvent (k : Settings) (e : Event) : sources (ofEvent k e) = e.mappedLines := by
  have hdeclaration : sources [⟨e.lines, declaredPieces k e⟩] =
      e.lines.toList ++ e.spots.filterMap Spot.source? := by
    rw [← (aligned_declaredPieces k e).sources]
    exact List.flatMap_singleton ..
  rw [ofEvent_eq, sources_append, sources_headerSection, hdeclaration, e.filterMap_source?_spots,
    ← List.append_assoc]
  rfl

/-! ### The listing of events -/

/-- The listing of events with something in front of the first one, and an empty line between
two. -/
def ofEvents (k : Settings) (lead : Listing) : List Event → Listing
  | [] => []
  | e :: rest => lead ++ ofEvent k e ++ ofEvents k Settings.gap rest

lemma isClosed_gap : IsClosed Settings.gap := by
  intro s hs
  rw [List.mem_singleton.mp hs]
  refine ⟨fun q hq => ?_, [], [], rfl⟩
  rw [List.mem_singleton.mp hq]
  exact Text.isWhole_concat []

section

variable (k : Settings) (lead : Listing)

lemma isClosed_ofEvents (hlead : lead.IsClosed) (events : List Event) :
    IsClosed (ofEvents k lead events) := by
  induction events generalizing lead with
  | nil => exact fun s hs => absurd hs List.not_mem_nil
  | cons e events ih => exact (hlead.append (isClosed_ofEvent k e)).append (ih _ isClosed_gap)

/-- The source lines in the listing of events. -/
lemma sources_ofEvents (hlead : sources lead = []) (events : List Event) :
    sources (ofEvents k lead events) = events.flatMap Event.mappedLines := by
  induction events generalizing lead with
  | nil => rfl
  | cons e events ih =>
      rw [ofEvents, sources_append, sources_append, hlead, sources_ofEvent, ih Settings.gap rfl,
        List.flatMap_cons, List.nil_append]

/-- The listing of one event among others. -/
lemma exists_split_ofEvents (hlead : sources lead = []) (before after : List Event) (e : Event) :
    ∃ front back, ofEvents k lead (before ++ e :: after) = front ++ (ofEvent k e ++ back) ∧
      sources front = before.flatMap Event.mappedLines := by
  induction before generalizing lead with
  | nil => exact ⟨lead, ofEvents k Settings.gap after, by simp [ofEvents], hlead⟩
  | cons d before ih =>
      obtain ⟨front, back, hsplit, hsources⟩ := ih Settings.gap rfl
      refine ⟨lead ++ ofEvent k d ++ front, back, ?_, ?_⟩
      · rw [List.cons_append, ofEvents, hsplit, List.append_assoc, List.append_assoc,
          List.append_assoc]
      · rw [sources_append, sources_append, hlead, sources_ofEvent, hsources, List.flatMap_cons,
          List.nil_append]

/-- A draft without a fault is the listing of its events. -/
lemma listing_draftBehind (events : List Event) (h : (k.draftBehind lead events).fault = none) :
    (k.draftBehind lead events).listing = ofEvents k lead events := by
  induction events generalizing lead with
  | nil => rfl
  | cons e events ih =>
      cases hrefusal : k.refusal? e with
      | some fault => simp [Settings.draftBehind, hrefusal] at h
      | none =>
          simp only [Settings.draftBehind, hrefusal] at h ⊢
          rw [ih Settings.gap h, ofEvents]

/-- **Formatted events are their listing**, and their maps are those of the listing. -/
theorem eq_ofEvents_of_format {k : Settings} {events : List Event} {f : Formatted}
    (h : k.format events = .ok f) :
    f.text = text (ofEvents k [] events) ∧ f.maps = mapsFrom 0 (ofEvents k [] events) := by
  obtain ⟨hfault, htext, hmaps⟩ := Settings.eq_mapsFrom_of_format h
  rw [Settings.draft, listing_draftBehind k [] events hfault] at htext hmaps
  exact ⟨htext, hmaps⟩

end

/-! ### The map of a statement -/

/-- The one map of the pieces of a statement that is printed and has source lines. It starts with
them and ends within them, and it holds all of them if the statement is no label. -/
lemma Owns.exists_map {p : Page} {x : Spot} {own : List Piece} (h : Owns p x own)
    (hprinted : x.isPrinted = true) {m : LineMap} (hm : x.source? = some m) {a : Nat}
    (ha : a + Text.lineEnds (own.flatMap Piece.text) < 2 ^ 32 - 1) :
    ∃ r, pieceMaps a own = [r] ∧ r.sourceRange = m.sourceRange ∧ r.printed.toNat = a + 1 ∧
      r.printedEnd.toNat ≤ a + Text.lineEnds (own.flatMap Piece.text) ∧
      (x.statement.isLabel = false → own.flatMap Piece.text = x.text p ∧
        r.printedEnd.toNat = a + Text.lineEnds (x.text p)) := by
  cases h with
  | lines _ hlabel =>
      have htext : [Piece.run x.source? (x.text p)].flatMap Piece.text = x.text p :=
        List.flatMap_singleton ..
      rw [htext] at ha ⊢
      have hpos := Text.lineEnds_pos (x.getLast?_text p)
      have hend := m.toNat_printedEnd_printedAt (a := a) (b := a + Text.lineEnds (x.text p))
        (by omega) (by omega)
      exact ⟨m.printedAt a (a + Text.lineEnds (x.text p)), by rw [hm]; rfl, rfl,
        m.toNat_printed_printedAt (by omega) _, by omega, fun _ => ⟨rfl, by omega⟩⟩
  | label hlabel name suffix =>
      have htext : [.run x.source? [], Piece.label name suffix].flatMap Piece.text =
          name ++ [':'] ++ suffix ++ ['\n'] := List.append_nil _
      rw [htext] at ha ⊢
      have hpos := Text.lineEnds_pos (t := name ++ [':'] ++ suffix ++ ['\n']) List.getLast?_concat
      have hend := m.toNat_printedEnd_printedAt (a := a) (b := a + 0) (by omega) (by omega)
      exact ⟨m.printedAt a (a + 0), by rw [hm]; rfl, rfl, m.toNat_printed_printedAt (by omega) _,
        by omega, fun hnot => absurd hlabel (by rw [hnot]; exact Bool.false_ne_true)⟩
  | nothing hnot =>
      rw [hprinted] at hnot
      cases hnot

/-- The text of a listing in which some pieces of a section are told apart. -/
lemma text_split {front back : Listing} {s : Section} {head own tail : List Piece}
    (hs : s.pieces = head ++ (own ++ tail)) :
    text (front ++ s :: back) = (text front ++ head.flatMap Piece.text) ++
      (own.flatMap Piece.text ++ (tail.flatMap Piece.text ++ text back)) := by
  have hcons : text (s :: back) = s.text ++ text back := rfl
  rw [text_append, hcons, Section.text, hs, List.flatMap_append, List.flatMap_append]
  simp only [List.append_assoc]

/-- **The map of a statement among the others**: it stands behind the maps of what is printed in
front of it, the maps behind it start past its lines, and its lines are those of the statement. -/
lemma exists_map_of_split {p : Page} {x : Spot} {own : List Piece} (hown : Owns p x own)
    (hprinted : x.isPrinted = true) {m : LineMap} (hm : x.source? = some m)
    {front back : Listing} {s : Section} {head tail : List Piece}
    (hs : s.pieces = head ++ (own ++ tail)) (hclosed : IsClosed (front ++ s :: back))
    (hlines : Text.lineEnds (text (front ++ s :: back)) < 2 ^ 32 - 1) :
    ∃ xs r ys, mapsFrom 0 (front ++ s :: back) = xs ++ r :: ys ∧
      xs.length = (sources front ++ s.source.toList ++ head.filterMap Piece.source?).length ∧
      r.sourceRange = m.sourceRange ∧ (∀ y ∈ ys, r.printedEnd.toNat < y.printed.toNat) ∧
      (x.statement.isLabel = false → Text.linesBetween r.printed.toNat r.printedEnd.toNat
        (text (front ++ s :: back)) = x.text p) := by
  obtain ⟨hfront, hrest⟩ := List.forall_mem_append.mp hclosed
  obtain ⟨hsection, hback⟩ := List.forall_mem_cons.mp hrest
  have hwhole := hsection.whole
  rw [hs] at hwhole
  have hhead : Text.IsWhole (text front ++ head.flatMap Piece.text) :=
    Text.IsWhole.append (IsClosed.isWhole_text hfront)
      (Text.isWhole_flatMap (List.forall_mem_append.mp hwhole).1)
  have hcount : Text.lineEnds s.text = Text.lineEnds (head.flatMap Piece.text) +
      (Text.lineEnds (own.flatMap Piece.text) + Text.lineEnds (tail.flatMap Piece.text)) := by
    rw [Section.text, hs, List.flatMap_append, List.flatMap_append, Text.lineEnds_append,
      Text.lineEnds_append]
  rw [text_split hs] at hlines ⊢
  simp only [Text.lineEnds_append] at hlines
  -- the map of the statement between those of the pieces of its section
  obtain ⟨r, hr, hrange, hfirst, hlast, hall⟩ := hown.exists_map hprinted hm
    (a := Text.lineEnds (text front) + Text.lineEnds (head.flatMap Piece.text)) (by omega)
  refine ⟨mapsFrom 0 front ++ ((s.source.map fun n => n.printedAt (Text.lineEnds (text front))
      (Text.lineEnds (text front) + Text.lineEnds s.text)).toList ++
        pieceMaps (Text.lineEnds (text front)) head), r,
    pieceMaps (Text.lineEnds (text front) + Text.lineEnds (head.flatMap Piece.text) +
        Text.lineEnds (own.flatMap Piece.text)) tail ++
      mapsFrom (Text.lineEnds (text front) + Text.lineEnds s.text) back, ?_, ?_, hrange, ?_, ?_⟩
  · rw [mapsFrom_append, Nat.zero_add, mapsFrom, hs, pieceMaps_append, pieceMaps_append, hr]
    simp only [List.append_assoc, List.cons_append, List.nil_append]
  · simp only [List.length_append, length_mapsFrom, length_pieceMaps]
    cases s.source <;> simp [Nat.add_assoc]
  · intro y hy
    rcases List.mem_append.mp hy with hy | hy
    · have hstarts := (liesIn_of_mem_pieceMaps (by omega) hy).starts
      omega
    · have hstarts := (liesIn_of_mem_mapsFrom hback (by omega) hy).starts
      omega
  · intro hlabel
    obtain ⟨hownText, hend⟩ := hall hlabel
    have hfound := Text.linesBetween_append hhead (Or.inr (x.getLast?_text p))
      (tail.flatMap Piece.text ++ text back)
    rw [Text.lineEnds_append] at hfound
    rw [hfirst, hend, hownText]
    exact hfound

end Listing

namespace Settings

variable {k : Settings}

/-- **Line maps are complete, in order and in range.** The maps of formatted events are those of
their source lines, one for each and in the order in which they are printed; each starts on the line
of the one in front or further on, and lies within the text. -/
theorem maps_in_order {events : List Event} {f : Formatted} (h : k.format events = .ok f)
    (hlines : Text.lineEnds f.text < 2 ^ 32 - 1) :
    f.maps.map LineMap.sourceRange =
        (events.flatMap Event.mappedLines).map LineMap.sourceRange ∧
      f.maps.Pairwise (fun m n => m.printed ≤ n.printed) ∧
      ∀ m ∈ f.maps, 1 ≤ m.printed ∧ m.printed ≤ m.printedEnd ∧
        m.printedEnd.toNat ≤ Text.lineEnds f.text := by
  obtain ⟨htext, hmaps⟩ := Listing.eq_ofEvents_of_format h
  have hclosed := Listing.isClosed_ofEvents k []
    (fun s hs => absurd hs List.not_mem_nil) events
  rw [htext] at hlines ⊢
  rw [hmaps]
  refine ⟨?_, ?_, fun m hm => ?_⟩
  · rw [Listing.map_sourceRange_mapsFrom, Listing.sources_ofEvents k [] rfl]
  · refine (Listing.pairwise_mapsFrom hclosed (by omega)).imp fun hle => ?_
    rw [UInt32.le_iff_toNat_le]
    exact hle
  · have hlies := Listing.liesIn_of_mem_mapsFrom hclosed (by omega) hm
    have hstarts := hlies.starts
    have hstops := hlies.stops
    refine ⟨?_, UInt32.le_iff_toNat_le.mpr hlies.ordered, by omega⟩
    rw [UInt32.le_iff_toNat_le, UInt32.toNat_one]
    omega

/-- An event with a header, with a label, and with a choice that has a statement to be left out in
its first branch and another choice for its second one. -/
def mapped : Event where
  header := some "// first".toList
  headerLines := some (.ofLine 1)
  lines := some (.ofSource 2 9)
  body := [
    .simple { lines := some (.ofLine 3) } (.label 0),
    .choice { lines := some (.ofLine 4) }
      (.combine .all [.atom (.read 1 false none) false [], .atom (.read 2 false none) false []]
        false [])
      [.simple { lines := some (.ofLine 5) } .noOp]
      [.choice { lines := some (.ofLine 6) } (.atom (.read 3 false none) false []) [] []]]

/-- An event with nothing but a statement to be left out. -/
def mappedEmpty : Event where
  lines := some (.ofLine 12)
  body := [.simple { lines := some (.ofLine 13) } .noOp]

lemma exists_format_mapped :
    ∃ f, ({ columnLimit := 20 } : Settings).format [mapped, mappedEmpty] = .ok f ∧
      Text.lineEnds f.text = 11 := by
  obtain ⟨f, hf⟩ : ∃ f, ({ columnLimit := 20 } : Settings).format [mapped, mappedEmpty] = .ok f :=
    ⟨_, rfl⟩
  have hcount : (({ columnLimit := 20 } : Settings).format [mapped, mappedEmpty]).toOption.map
      (fun f => Text.lineEnds f.text) = some 11 := rfl
  rw [hf] at hcount
  exact ⟨f, hf, Option.some.inj hcount⟩

/-- On a narrow page the two events take eleven lines, and each of their eight source lines has a
map. -/
theorem maps_in_order_mapped :
    ∃ f, ({ columnLimit := 20 } : Settings).format [mapped, mappedEmpty] = .ok f ∧
      Text.lineEnds f.text = 11 ∧
      f.maps.map LineMap.sourceRange =
        [(1, 1), (2, 9), (3, 3), (4, 4), (5, 5), (6, 6), (12, 12), (13, 13)] ∧
      f.maps.Pairwise (fun m n => m.printed ≤ n.printed) ∧
      ∀ m ∈ f.maps, 1 ≤ m.printed ∧ m.printed ≤ m.printedEnd ∧
        m.printedEnd.toNat ≤ Text.lineEnds f.text := by
  obtain ⟨f, hf, hlines⟩ := exists_format_mapped
  obtain ⟨hsources, hordered, hrange⟩ := maps_in_order hf (by rw [hlines]; decide)
  exact ⟨f, hf, hlines, hsources, hordered, hrange⟩

/-- **A printed line leads back to its statement.** The map of a statement that is printed stands
behind those of all that is printed in front of it. Every line it holds is looked up in it, and
these lines are what was laid out for the statement, unless it is a label. -/
theorem sourceLine?_of_printed {before after : List Event} {e : Event} {f : Formatted}
    (h : k.format (before ++ e :: after) = .ok f) (hlines : Text.lineEnds f.text < 2 ^ 32 - 1)
    {xs ys : List Listing.Spot} {x : Listing.Spot} (hx : e.spots = xs ++ x :: ys)
    (hprinted : x.isPrinted = true) {m : LineMap} (hm : x.source? = some m) :
    ∃ r, f.maps[(before.flatMap Event.mappedLines ++ e.headLines ++
        xs.filterMap Listing.Spot.source?).length]? = some r ∧
      r.sourceRange = m.sourceRange ∧
      (∀ line, r.printed ≤ line → line ≤ r.printedEnd →
        LineMap.sourceLine? f.maps line = some m.source) ∧
      (x.statement.isLabel = false →
        Text.linesBetween r.printed.toNat r.printedEnd.toNat f.text = x.text (.ofSettings k)) := by
  obtain ⟨htext, hmaps⟩ := Listing.eq_ofEvents_of_format h
  have hclosed := Listing.isClosed_ofEvents k []
    (fun s hs => absurd hs List.not_mem_nil) (before ++ e :: after)
  obtain ⟨front, back, hsplit, hfront⟩ := Listing.exists_split_ofEvents k [] rfl before after e
  have haligned := Listing.aligned_declaredPieces k e
  rw [hx] at haligned
  obtain ⟨head, own, tail, hdeclared, hhead, hown, -⟩ := haligned.exists_split
  have hlisting : Listing.ofEvents k [] (before ++ e :: after) =
      (front ++ Listing.headerSection e) ++ ⟨e.lines, Listing.declaredPieces k e⟩ :: back := by
    rw [hsplit, Listing.ofEvent_eq]
    simp
  rw [htext] at hlines ⊢
  rw [hlisting] at hlines hclosed hmaps ⊢
  have hpairwise := Listing.pairwise_mapsFrom (a := 0) hclosed (by omega)
  obtain ⟨before', r, behind, hcut, hlength, hrange, hbehind, hrows⟩ :=
    Listing.exists_map_of_split hown hprinted hm hdeclared hclosed hlines
  rw [hcut] at hmaps hpairwise
  rw [hmaps]
  refine ⟨r, ?_, hrange, fun line hfirst hlast => ?_, hrows⟩
  · have hindex : (before.flatMap Event.mappedLines ++ e.headLines ++
        xs.filterMap Listing.Spot.source?).length = before'.length := by
      rw [hlength, Listing.sources_append, hfront, Listing.sources_headerSection, hhead.sources,
        Event.headLines]
      simp
    rw [hindex, List.getElem?_append_right (Nat.le_refl _), Nat.sub_self, List.getElem?_cons_zero]
  · have hsource : r.source = m.source := congrArg Prod.fst hrange
    rw [← hsource]
    refine LineMap.sourceLine?_append_cons (fun n hn => ?_) (fun n hn => ?_) ?_
    · exact (List.pairwise_append.mp hpairwise).2.2 n hn r List.mem_cons_self
    · rw [UInt32.le_iff_toNat_le] at hlast
      exact Nat.lt_of_le_of_lt hlast (hbehind n hn)
    · exact decide_eq_true ⟨hfirst, hlast⟩

/-- The second choice begins on the line on which the statement that is left out would stand, in the
line that closes the first branch, and that line leads back to the choice. -/
theorem sourceLine?_of_printed_mapped :
    ∃ f, ({ columnLimit := 20 } : Settings).format [mapped, mappedEmpty] = .ok f ∧
      ∃ r, f.maps[5]? = some r ∧ r.sourceRange = (6, 6) ∧
        (∀ line, r.printed ≤ line → line ≤ r.printedEnd →
          LineMap.sourceLine? f.maps line = some 6) ∧
        Text.linesBetween r.printed.toNat r.printedEnd.toNat f.text =
          "    ".toList ++ Text.blockElse ++ "if (cond[3])".toList ++ Text.blockOpen ++ ['\n'] := by
  obtain ⟨f, hf, hlines⟩ := exists_format_mapped
  have hfirst : ({ columnLimit := 20 } : Settings).format ([] ++ mapped :: [mappedEmpty]) = .ok f :=
    hf
  have hspots : mapped.spots = mapped.spots.take 3 ++ ⟨.choice { lines := some (.ofLine 6) }
      (.atom (.read 3 false none) false []) [] [], 1, Text.blockElse, false⟩ :: [] := rfl
  obtain ⟨r, hr, hrange, hsource, hrows⟩ :=
    sourceLine?_of_printed hfirst (by rw [hlines]; decide) hspots rfl rfl
  exact ⟨f, hf, r, hr, hrange, hsource, (hrows rfl).trans (by decide)⟩

end Settings

end EventScript
