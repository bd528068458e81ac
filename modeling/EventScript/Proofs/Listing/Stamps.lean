import EventScript.Proofs.Listing.Written
import EventScript.Proofs.Text.Lines
import Mathlib.Algebra.Group.Nat.Defs

/-!
The line maps of a listing.

A writer stamps the line maps by the line ends that it has counted so far. Counted from any number
of line ends on, the stamps are a function of the listing, and they stay within what the listing
prints.

* `LineMap.printedAt`: a map with the lines between two numbers of line ends;
* `Listing.pieceMaps`, `Listing.mapsFrom`: the maps of pieces and of a listing, and
  `Settings.eq_mapsFrom_of_format`: they are those of a formatted text;
* `LineMap.LiesIn`: a map within a stretch of lines. The maps of pieces may reach one line further
  than the pieces (`liesIn_of_mem_pieceMaps`), those of closed sections do not
  (`liesIn_of_mem_mapsFrom`);
* `Listing.pairwise_mapsFrom`: the maps start one after the other;
* `LineMap.sourceLine?_append_cons`: so a line is looked up in the last map that holds it.
-/

namespace EventScript

/-! ### Stamped maps -/

namespace LineMap

/-- The source lines of a map. -/
def sourceRange (m : LineMap) : UInt32 × UInt32 := (m.source, m.sourceEnd)

/-- The map of an owner whose text starts after `a` line ends and has ended after `b`. -/
def printedAt (m : LineMap) (a b : Nat) : LineMap := (m.start (.ofNat a)).stop (.ofNat b)

@[simp] lemma sourceRange_printedAt (m : LineMap) (a b : Nat) :
    (m.printedAt a b).sourceRange = m.sourceRange := rfl

lemma toNat_printed_printedAt (m : LineMap) {a : Nat} (ha : a < 2 ^ 32 - 1) (b : Nat) :
    (m.printedAt a b).printed.toNat = a + 1 := by
  show (UInt32.ofNat a + 1).toNat = a + 1
  rw [UInt32.toNat_add, UInt32.toNat_ofNat', UInt32.toNat_one]
  omega

lemma toNat_printedEnd_printedAt (m : LineMap) {a b : Nat} (ha : a < 2 ^ 32 - 1)
    (hb : b < 2 ^ 32) : (m.printedAt a b).printedEnd.toNat = max b (a + 1) := by
  have hprinted := m.toNat_printed_printedAt ha b
  have hstop : (UInt32.ofNat b).toNat = b := by
    rw [UInt32.toNat_ofNat']
    omega
  have hend : (m.printedAt a b).printedEnd =
      if UInt32.ofNat b ≤ (m.printedAt a b).printed then (m.printedAt a b).printed
      else UInt32.ofNat b := rfl
  rw [hend]
  split
  · next h =>
      rw [UInt32.le_iff_toNat_le] at h
      omega
  · next h =>
      rw [UInt32.le_iff_toNat_le] at h
      omega

/-- A map whose printed lines begin behind `lo` line ends and end within `hi` of them. -/
structure LiesIn (m : LineMap) (lo hi : Nat) : Prop where
  starts : lo < m.printed.toNat
  ordered : m.printed.toNat ≤ m.printedEnd.toNat
  stops : m.printedEnd.toNat ≤ hi

lemma LiesIn.mono {m : LineMap} {lo lo' hi hi' : Nat} (h : m.LiesIn lo hi) (hlo : lo' ≤ lo)
    (hhi : hi ≤ hi') : m.LiesIn lo' hi' :=
  ⟨Nat.lt_of_le_of_lt hlo h.starts, h.ordered, Nat.le_trans h.stops hhi⟩

/-- The map of an owner lies within its lines, or on the next one if it has none. -/
lemma liesIn_printedAt (m : LineMap) {a b : Nat} (ha : a < 2 ^ 32 - 1) (hb : b < 2 ^ 32) :
    (m.printedAt a b).LiesIn a (max b (a + 1)) := by
  have hprinted := m.toNat_printed_printedAt ha b
  have hend := m.toNat_printedEnd_printedAt ha hb
  exact ⟨by omega, by omega, by omega⟩

/-- Whether a map starts before another one, or with it. -/
def NotAfter (m n : LineMap) : Prop := m.printed.toNat ≤ n.printed.toNat

/-- A map within one stretch of lines starts before each within a later one. -/
lemma LiesIn.notAfter {m n : LineMap} {lo hi lo' hi' : Nat} (hm : m.LiesIn lo hi)
    (hn : n.LiesIn lo' hi') (h : hi ≤ lo' + 1) : m.NotAfter n := by
  have hstarts := hn.starts
  have hordered := hm.ordered
  have hstops := hm.stops
  show m.printed.toNat ≤ n.printed.toNat
  omega

/-! ### Look-up -/

lemma lastGreatest_concat (key : LineMap → UInt32) {maps : List LineMap} {m : LineMap}
    (h : ∀ n ∈ maps, key n ≤ key m) : lastGreatest key (maps ++ [m]) = some m := by
  induction maps with
  | nil => rfl
  | cons n maps ih =>
      rw [List.forall_mem_cons] at h
      rw [List.cons_append, lastGreatest, ih h.2]
      exact if_pos h.1

/-- **A line is looked up in a map that holds it**, if no map in front starts later and all maps
behind start past the line. -/
theorem sourceLine?_append_cons {xs ys : List LineMap} {m : LineMap} {line : UInt32}
    (hxs : ∀ x ∈ xs, x.NotAfter m) (hys : ∀ y ∈ ys, line.toNat < y.printed.toNat)
    (hline : m.holdsPrinted line = true) :
    sourceLine? (xs ++ m :: ys) line = some m.source := by
  have hnone : ys.filter (·.holdsPrinted line) = [] := by
    rw [List.filter_eq_nil_iff]
    intro y hy hholds
    have hstart := (of_decide_eq_true hholds).1
    rw [UInt32.le_iff_toNat_le] at hstart
    exact absurd (hys y hy) (by omega)
  have hkept : (m :: ys).filter (·.holdsPrinted line) = [m] := by
    simp [hline, hnone]
  have hlast : lastGreatest printed (xs.filter (·.holdsPrinted line) ++ [m]) = some m := by
    refine lastGreatest_concat printed fun x hx => ?_
    rw [UInt32.le_iff_toNat_le]
    exact hxs x (List.mem_of_mem_filter hx)
  rw [sourceLine?, List.filter_append, hkept, hlast]
  rfl

end LineMap

/-! ### The maps of a listing -/

namespace Listing

/-- The line maps of pieces that are written after `a` line ends. -/
def pieceMaps (a : Nat) : List Piece → List LineMap
  | [] => []
  | p :: rest =>
    (p.source?.map fun m => m.printedAt a (a + Text.lineEnds p.text)).toList ++
      pieceMaps (a + Text.lineEnds p.text) rest

/-- The line maps of a listing that is written after `a` line ends. -/
def mapsFrom (a : Nat) : Listing → List LineMap
  | [] => []
  | s :: rest =>
    (s.source.map fun m => m.printedAt a (a + Text.lineEnds s.text)).toList ++
      pieceMaps a s.pieces ++ mapsFrom (a + Text.lineEnds s.text) rest

lemma pieceMaps_append (a : Nat) (ps qs : List Piece) :
    pieceMaps a (ps ++ qs) =
      pieceMaps a ps ++ pieceMaps (a + Text.lineEnds (ps.flatMap Piece.text)) qs := by
  induction ps generalizing a with
  | nil => rfl
  | cons p ps ih =>
      rw [List.cons_append, pieceMaps, pieceMaps, ih, List.flatMap_cons, Text.lineEnds_append,
        List.append_assoc, Nat.add_assoc]

lemma mapsFrom_append (a : Nat) (k l : Listing) :
    mapsFrom a (k ++ l) = mapsFrom a k ++ mapsFrom (a + Text.lineEnds (text k)) l := by
  induction k generalizing a with
  | nil => rfl
  | cons s k ih =>
      have htext : text (s :: k) = s.text ++ text k := rfl
      rw [List.cons_append, mapsFrom, mapsFrom, ih, htext, Text.lineEnds_append, List.append_assoc,
        List.append_assoc, List.append_assoc, Nat.add_assoc]

/-- The source lines in a listing, those of a section in front of those of its pieces. -/
def sources (l : Listing) : List LineMap :=
  l.flatMap fun s => s.source.toList ++ s.pieces.filterMap Piece.source?

lemma sources_append (k l : Listing) : sources (k ++ l) = sources k ++ sources l :=
  List.flatMap_append

lemma map_sourceRange_pieceMaps (a : Nat) (ps : List Piece) :
    (pieceMaps a ps).map LineMap.sourceRange =
      (ps.filterMap Piece.source?).map LineMap.sourceRange := by
  induction ps generalizing a with
  | nil => rfl
  | cons p ps ih =>
      rw [pieceMaps, List.map_append, ih]
      cases h : p.source? with
      | none => simp [h]
      | some m => simp [h]

/-- **The maps of a listing are those of its source lines**, in the order of the listing. -/
theorem map_sourceRange_mapsFrom (a : Nat) (l : Listing) :
    (mapsFrom a l).map LineMap.sourceRange = (sources l).map LineMap.sourceRange := by
  induction l generalizing a with
  | nil => rfl
  | cons s l ih =>
      rw [mapsFrom, List.map_append, List.map_append, ih, map_sourceRange_pieceMaps]
      cases h : s.source with
      | none => simp [sources, h]
      | some m => simp [sources, h]

lemma length_pieceMaps (a : Nat) (ps : List Piece) :
    (pieceMaps a ps).length = (ps.filterMap Piece.source?).length := by
  have h := congrArg List.length (map_sourceRange_pieceMaps a ps)
  rwa [List.length_map, List.length_map] at h

lemma length_mapsFrom (a : Nat) (l : Listing) : (mapsFrom a l).length = (sources l).length := by
  have h := congrArg List.length (map_sourceRange_mapsFrom a l)
  rwa [List.length_map, List.length_map] at h

end Listing

/-! ### Writing -/

namespace Writer

lemma line_write (w : Writer) (t : Text) :
    (w.write t).1.line = w.line + .ofNat (Text.lineEnds t) := rfl

lemma mapsBetween_eq (source : Option LineMap) {before after : Writer} {a b : Nat}
    (hbefore : before.line = .ofNat a) (hafter : after.line = .ofNat b) :
    mapsBetween source before after = (source.map fun m => m.printedAt a b).toList := by
  rw [mapsBetween, hbefore, hafter]
  rfl

/-- The maps of pieces written to a sink with any room. -/
lemma printPieces_maps {w : Writer} (hw : w.IsUnbounded) {a : Nat} (hline : w.line = .ofNat a)
    (pieces : List Listing.Piece) :
    (w.printPieces pieces).2 = some (Listing.pieceMaps a pieces) ∧
      (w.printPieces pieces).1.line =
        .ofNat (a + Text.lineEnds (pieces.flatMap Listing.Piece.text)) := by
  induction pieces generalizing w a with
  | nil => exact ⟨rfl, hline⟩
  | cons p pieces ih =>
      obtain ⟨next, hwrite, hnext, -⟩ := write_of_unbounded hw p.text
      have hnextLine : next.line = .ofNat (a + Text.lineEnds p.text) := by
        have hwritten := w.line_write p.text
        rwa [hwrite, hline, ← UInt32.ofNat_add] at hwritten
      obtain ⟨hmaps, hfinal⟩ := ih hnext hnextLine
      have hstep : w.printPieces (p :: pieces) = ((next.printPieces pieces).1,
          (next.printPieces pieces).2.map (mapsBetween p.source? w next ++ ·)) := by
        rw [printPieces, hwrite]
      rw [hstep, List.flatMap_cons, Text.lineEnds_append, ← Nat.add_assoc]
      refine ⟨?_, hfinal⟩
      show (next.printPieces pieces).2.map _ = _
      rw [hmaps, mapsBetween_eq p.source? hline hnextLine]
      rfl

/-- **The maps of a listing written to a sink with any room.** -/
theorem print_maps {w : Writer} (hw : w.IsUnbounded) {a : Nat} (hline : w.line = .ofNat a)
    (l : Listing) : (w.print l).2 = some (Listing.mapsFrom a l) := by
  induction l generalizing w a with
  | nil => rfl
  | cons s l ih =>
      obtain ⟨next, maps, hpieces, hnext, -⟩ := printPieces_unbounded hw s.pieces
      obtain ⟨hmaps, hnextLine⟩ := printPieces_maps hw hline s.pieces
      rw [hpieces] at hmaps hnextLine
      obtain rfl : maps = Listing.pieceMaps a s.pieces := Option.some.inj hmaps
      have hstep : (w.print (s :: l)).2 = (next.print l).2.map
          ((mapsBetween s.source w next ++ Listing.pieceMaps a s.pieces) ++ ·) := by
        rw [print, hpieces]
      rw [hstep, ih hnext hnextLine, mapsBetween_eq s.source hline hnextLine]
      rfl

end Writer

namespace Settings

/-- **A formatted text is that of its draft, and so are its maps.** -/
theorem eq_mapsFrom_of_format {k : Settings} {events : List Event} {f : Formatted}
    (h : k.format events = .ok f) :
    (k.draft events).fault = none ∧ f.text = (k.draft events).listing.text ∧
      f.maps = Listing.mapsFrom 0 (k.draft events).listing := by
  cases hfault : (k.draft events).fault with
  | some fault =>
      rw [k.format_of_some hfault] at h
      cases h
  | none =>
      obtain ⟨after, maps, hprint, -, hreceived⟩ :=
        Writer.print_unbounded (w := Writer.ofSink .unbounded) rfl (k.draft events).listing
      have hmaps := Writer.print_maps (w := Writer.ofSink .unbounded) rfl (a := 0) rfl
        (k.draft events).listing
      rw [hprint] at hmaps
      have hformat : k.format events = .ok ⟨after.sink.received, maps⟩ := by
        simp only [format, formatTo, hprint, hfault]
      rw [hformat] at h
      obtain rfl := Except.ok.inj h
      exact ⟨rfl, hreceived, Option.some.inj hmaps⟩

end Settings

/-! ### Where the maps lie -/

namespace Listing

/-- The maps of pieces lie within their lines, and perhaps on the next one. -/
lemma liesIn_of_mem_pieceMaps {a : Nat} {ps : List Piece}
    (h : a + Text.lineEnds (ps.flatMap Piece.text) < 2 ^ 32 - 1) {m : LineMap}
    (hm : m ∈ pieceMaps a ps) :
    m.LiesIn a (a + Text.lineEnds (ps.flatMap Piece.text) + 1) := by
  induction ps generalizing a with
  | nil => cases hm
  | cons p ps ih =>
      rw [List.flatMap_cons, Text.lineEnds_append] at h ⊢
      rcases List.mem_append.mp hm with hm | hm
      · obtain ⟨n, -, rfl⟩ := Option.map_eq_some_iff.mp (Option.mem_toList.mp hm)
        exact (n.liesIn_printedAt (by omega) (by omega)).mono (by omega) (by omega)
      · exact (ih (by omega) hm).mono (by omega) (by omega)

/-- The maps of pieces start one after the other. -/
lemma pairwise_pieceMaps {a : Nat} {ps : List Piece}
    (h : a + Text.lineEnds (ps.flatMap Piece.text) < 2 ^ 32 - 1) :
    (pieceMaps a ps).Pairwise LineMap.NotAfter := by
  induction ps generalizing a with
  | nil => exact List.Pairwise.nil
  | cons p ps ih =>
      rw [List.flatMap_cons, Text.lineEnds_append] at h
      have hrest := ih (a := a + Text.lineEnds p.text) (by omega)
      rw [pieceMaps]
      cases p.source? with
      | none => exact hrest
      | some n =>
          refine List.Pairwise.cons (fun m hm => ?_) hrest
          have hn := n.toNat_printed_printedAt (a := a) (by omega) (a + Text.lineEnds p.text)
          have hm := (liesIn_of_mem_pieceMaps (by omega) hm).starts
          show (n.printedAt a _).printed.toNat ≤ m.printed.toNat
          omega

/-- A section of whole lines that ends with a line without source lines. -/
structure Section.IsClosed (s : Section) : Prop where
  whole : ∀ q ∈ s.pieces, q.text.IsWhole
  ends : ∃ front t, s.pieces = front ++ [.plain (t ++ ['\n'])]

/-- A listing of closed sections. -/
def IsClosed (l : Listing) : Prop := ∀ s ∈ l, s.IsClosed

lemma IsClosed.append {k l : Listing} (hk : k.IsClosed) (hl : l.IsClosed) : IsClosed (k ++ l) :=
  List.forall_mem_append.mpr ⟨hk, hl⟩

/-- The text of closed sections is whole lines. -/
lemma IsClosed.isWhole_text {l : Listing} (h : l.IsClosed) : Text.IsWhole (text l) :=
  Text.isWhole_flatMap fun s hs => Text.isWhole_flatMap (h s hs).whole

/-- The maps of the pieces of a closed section lie within its lines. -/
lemma Section.IsClosed.liesIn {s : Section} (hs : s.IsClosed) {a : Nat}
    (h : a + Text.lineEnds s.text < 2 ^ 32 - 1) {m : LineMap} (hm : m ∈ pieceMaps a s.pieces) :
    m.LiesIn a (a + Text.lineEnds s.text) := by
  obtain ⟨front, t, hpieces⟩ := hs.ends
  have htext : s.text = front.flatMap Piece.text ++ (t ++ ['\n']) := by
    rw [Section.text, hpieces, List.flatMap_append, List.flatMap_singleton]
    rfl
  have hmaps : pieceMaps a s.pieces = pieceMaps a front := by
    rw [hpieces, pieceMaps_append]
    exact List.append_nil _
  have hend : 0 < Text.lineEnds (t ++ ['\n']) := Text.lineEnds_pos List.getLast?_concat
  rw [htext, Text.lineEnds_append] at h ⊢
  rw [hmaps] at hm
  exact (liesIn_of_mem_pieceMaps (by omega) hm).mono (by omega) (by omega)

/-- A closed section has a line. -/
lemma Section.IsClosed.lineEnds_pos {s : Section} (hs : s.IsClosed) :
    0 < Text.lineEnds s.text := by
  obtain ⟨front, t, hpieces⟩ := hs.ends
  refine Text.lineEnds_pos ?_
  rw [Section.text, hpieces, List.flatMap_append, List.flatMap_singleton, Piece.plain, Piece.text,
    ← List.append_assoc, List.getLast?_concat]

/-- **The maps of closed sections lie within their lines.** -/
theorem liesIn_of_mem_mapsFrom {a : Nat} {l : Listing} (hl : l.IsClosed)
    (h : a + Text.lineEnds (text l) < 2 ^ 32 - 1) {m : LineMap} (hm : m ∈ mapsFrom a l) :
    m.LiesIn a (a + Text.lineEnds (text l)) := by
  induction l generalizing a with
  | nil => cases hm
  | cons s l ih =>
      have htext : text (s :: l) = s.text ++ text l := rfl
      obtain ⟨hs, hl⟩ := List.forall_mem_cons.mp hl
      have hpos := hs.lineEnds_pos
      rw [htext, Text.lineEnds_append] at h ⊢
      rw [mapsFrom, List.mem_append, List.mem_append] at hm
      rcases hm with (hm | hm) | hm
      · obtain ⟨n, -, rfl⟩ := Option.map_eq_some_iff.mp (Option.mem_toList.mp hm)
        exact (n.liesIn_printedAt (by omega) (by omega)).mono (by omega) (by omega)
      · exact (hs.liesIn (by omega) hm).mono (by omega) (by omega)
      · exact (ih hl (by omega) hm).mono (by omega) (by omega)

/-- **The maps of closed sections start one after the other.** -/
theorem pairwise_mapsFrom {a : Nat} {l : Listing} (hl : l.IsClosed)
    (h : a + Text.lineEnds (text l) < 2 ^ 32 - 1) :
    (mapsFrom a l).Pairwise LineMap.NotAfter := by
  induction l generalizing a with
  | nil => exact List.Pairwise.nil
  | cons s l ih =>
      have htext : text (s :: l) = s.text ++ text l := rfl
      obtain ⟨hs, hl⟩ := List.forall_mem_cons.mp hl
      have hpos := hs.lineEnds_pos
      rw [htext, Text.lineEnds_append] at h
      have hpieces : (pieceMaps a s.pieces).Pairwise LineMap.NotAfter := by
        rw [Section.text] at h
        exact pairwise_pieceMaps (by omega)
      have hrest := ih (a := a + Text.lineEnds s.text) hl (by omega)
      have hinner : ∀ m ∈ pieceMaps a s.pieces, m.LiesIn a (a + Text.lineEnds s.text) :=
        fun m hm => hs.liesIn (by omega) hm
      have hlater : ∀ m ∈ mapsFrom (a + Text.lineEnds s.text) l,
          m.LiesIn (a + Text.lineEnds s.text) (a + Text.lineEnds s.text + Text.lineEnds (text l)) :=
        fun m hm => liesIn_of_mem_mapsFrom hl (by omega) hm
      have hsection : ((s.source.map fun m =>
          m.printedAt a (a + Text.lineEnds s.text)).toList ++ pieceMaps a s.pieces).Pairwise
            LineMap.NotAfter := by
        cases s.source with
        | none => exact hpieces
        | some n =>
            refine List.Pairwise.cons (fun m hm => ?_) hpieces
            have hn := n.toNat_printed_printedAt (a := a) (by omega) (a + Text.lineEnds s.text)
            have hm := (hinner m hm).starts
            show (n.printedAt a _).printed.toNat ≤ m.printed.toNat
            omega
      rw [mapsFrom, List.pairwise_append]
      refine ⟨hsection, hrest, fun m hm n hn => ?_⟩
      have hm : m.LiesIn a (a + Text.lineEnds s.text) := by
        rcases List.mem_append.mp hm with hm | hm
        · obtain ⟨o, -, rfl⟩ := Option.map_eq_some_iff.mp (Option.mem_toList.mp hm)
          exact (o.liesIn_printedAt (by omega) (by omega)).mono (by omega) (by omega)
        · exact hinner m hm
      exact hm.notAfter (hlater n hn) (by omega)

end Listing

end EventScript
