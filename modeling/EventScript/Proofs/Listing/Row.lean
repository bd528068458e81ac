import EventScript.Listing.Event
import EventScript.Proofs.Text.Lines
import EventScript.Proofs.Text.Word

/-!
Rows: the lines of a listing that opens and closes blocks, without their indents.

* `Listing.Row`, `Listing.Row.text`: what a line may be, and its text;
* `Listing.Row.ofText`, `Listing.Row.IsReadable`: a row read back from its text, and the rows for
  which this gives what was printed;
* `Listing.Shows`: pieces that show rows, one on each line. The text of such pieces determines the
  rows (`Shows.rows_inj`);
* `Layout.Tree.renderLine_leaf`, `Layout.Tree.renderLine_between_leaf`: the heads of statements that
  are never broken.
-/

namespace EventScript

/-! ### Heads on one line -/

namespace Layout.Tree

/-- A leaf without remarks is rendered as it is, wherever it stands. -/
lemma render_leaf (p : Page) (sp : Text) (column trailing : Nat) (t : Text) :
    render p sp column trailing (leaf t []) .none = (t, .none) := by
  have hflat : renderFlat (leaf t []) .none = (t, .none) := by
    rw [renderFlat, leaf, oneLine, partTexts, allRemarks, partRemarks]
    simp [Pending.add_nil]
  rw [leaf, render.eq_def]
  simp only
  split
  · exact hflat
  · exact hflat

/-- The line of a leaf without remarks. -/
lemma renderLine_leaf (p : Page) (sp before t : Text) :
    renderLine p sp before [] (leaf t []) = sp ++ (before ++ t) ++ ['\n'] := by
  rw [renderLine]
  simp only [render_leaf]
  simp [Pending.line, Pending.none, Pending.linesAt]

/-- The line of a leaf without remarks between texts that stay attached to it. -/
lemma renderLine_between_leaf (p : Page) (sp before opening t closing : Text) :
    renderLine p sp before [] (between opening (leaf t []) closing) =
      sp ++ (before ++ (opening ++ t ++ closing)) ++ ['\n'] := by
  have hrender (column trailing : Nat) :
      render p sp column trailing (between opening (leaf t []) closing) .none =
        (opening ++ t ++ closing, .none) := by
    rw [between, render.eq_def]
    simp only
    split
    · rw [renderFlat, oneLine, partTexts, partTexts, allRemarks, partRemarks, partRemarks]
      simp [leaf, oneLine, partTexts, allRemarks, partRemarks]
    · rw [Pending.add_nil, render_leaf]
  rw [renderLine]
  simp only [hrender]
  simp [Pending.line, Pending.none, Pending.linesAt]

end Layout.Tree

/-- The indents of settings are blanks. -/
lemma Layout.Page.indentAt_ofSettings (k : Settings) (depth : Nat) :
    (Layout.Page.ofSettings k).indentAt depth = List.replicate (depth * k.indentWidth) ' ' :=
  List.flatten_replicate_replicate

namespace Listing

/-! ### Rows -/

/-- What stands in front of a choice that goes on in the line that closes a block. -/
def elseMark (joined : Bool) : Text := if joined then Text.blockElse else []

/-- A line that does something, or opens or closes a block. -/
inductive Row where
  | label (name : Text)
  | action (text : Text)
  | loop (code : Text)
  /-- The head of a choice, which goes on in the line that closes another one if it is joined. -/
  | choice (joined : Bool) (condition : Text)
  | otherwise
  | close
deriving DecidableEq

namespace Row

/-- The text of a row. -/
def text : Row → Text
  | label name => name ++ [':']
  | action t => t
  | loop code => code ++ Text.blockOpen
  | choice joined c => elseMark joined ++ ("if (".toList ++ c ++ (')' :: Text.blockOpen))
  | otherwise => elseMark true ++ ['{']
  | close => Text.blockClose

/-- The row of a text, told by its last character and by single characters of its beginning. -/
def ofText (t : Text) : Row :=
  if t.getLast? = some ':' then label t.dropLast
  else if t.getLast? = some ';' then action t
  else if t.head? = some 'w' then loop (t.take (t.length - 2))
  else if t.head? = some 'i' then choice false ((t.drop 4).take (t.length - 7))
  else if t[7]? = some 'i' then choice true ((t.drop 11).take (t.length - 14))
  else if t = close.text then close
  else otherwise

/-- A row on one line that begins with something else than a blank, and is read back from its
text. -/
structure IsReadable (r : Row) : Prop where
  oneLine : '\n' ∉ r.text
  begins : ∃ c t, r.text = c :: t ∧ Text.isBlank c = false
  ofText : ofText r.text = r

lemma isReadable_close : close.IsReadable := ⟨by decide, ⟨_, _, rfl, by decide⟩, by decide⟩

lemma isReadable_otherwise : otherwise.IsReadable := ⟨by decide, ⟨_, _, rfl, by decide⟩, by decide⟩

lemma isReadable_label {name : Text} (h : name.IsWord) (hne : name ≠ []) :
    (label name).IsReadable := by
  obtain ⟨c, t, rfl⟩ := List.exists_cons_of_ne_nil hne
  refine ⟨fun hmem => ?_, ⟨c, t ++ [':'], rfl, Text.isBlank_of_isWordChar (h c (by simp))⟩, ?_⟩
  · rcases List.mem_append.mp hmem with hmem | hmem
    · exact absurd (h _ hmem) (by decide)
    · exact absurd (List.mem_singleton.mp hmem) (by decide)
  · have hlast : (label (c :: t)).text.getLast? = some ':' := List.getLast?_concat
    rw [ofText, if_pos hlast, text, List.dropLast_concat]

lemma isReadable_action {t : Text} (hline : '\n' ∉ t)
    (hbegins : ∃ c u, t = c :: u ∧ Text.isBlank c = false) (hlast : t.getLast? = some ';') :
    (action t).IsReadable := by
  have hcolon : ¬ t.getLast? = some ':' := by
    rw [hlast]
    decide
  refine ⟨hline, hbegins, ?_⟩
  rw [text, ofText, if_neg hcolon, if_pos hlast]

/-- A row that opens a block is told by its beginning. -/
lemma ofText_opening (t u : Text) {r : Row} (hr : r.text = t ++ (u ++ (')' :: Text.blockOpen))) :
    ofText r.text =
      if r.text.head? = some 'w' then loop (r.text.take (r.text.length - 2))
      else if r.text.head? = some 'i' then
        choice false ((r.text.drop 4).take (r.text.length - 7))
      else if r.text[7]? = some 'i' then
        choice true ((r.text.drop 11).take (r.text.length - 14))
      else if r.text = close.text then close
      else otherwise := by
  have hfront : t ++ (u ++ (')' :: Text.blockOpen)) = (t ++ u ++ [')', ' ']) ++ ['{'] := by
    simp [Text.blockOpen]
  have hlast : r.text.getLast? = some '{' := by rw [hr, hfront, List.getLast?_concat]
  have hcolon : ¬ r.text.getLast? = some ':' := by
    rw [hlast]
    decide
  have hsemicolon : ¬ r.text.getLast? = some ';' := by
    rw [hlast]
    decide
  rw [ofText, if_neg hcolon, if_neg hsemicolon]

/-- A loop that begins with its keyword. -/
lemma isReadable_loop {x : Text} (hx : '\n' ∉ x) :
    (loop ("while (".toList ++ x ++ [')'])).IsReadable := by
  have htext : (loop ("while (".toList ++ x ++ [')'])).text =
      ('w' :: "hile (".toList) ++ (x ++ (')' :: Text.blockOpen)) := by
    simp [text]
  refine ⟨?_, ⟨'w', _, htext, by decide⟩, ?_⟩
  · rw [htext]
    simpa [Text.blockOpen] using hx
  · have hhead : (loop ("while (".toList ++ x ++ [')'])).text.head? = some 'w' := by
      rw [htext, List.cons_append, List.head?_cons]
    rw [ofText_opening _ _ htext, if_pos hhead, text]
    congr 1
    exact List.take_left' (by simp [Text.blockOpen])

lemma isReadable_choice (joined : Bool) {c : Text} (hc : '\n' ∉ c) :
    (choice joined c).IsReadable := by
  cases joined with
  | false =>
      have htext : (choice false c).text =
          ('i' :: "f (".toList) ++ (c ++ (')' :: Text.blockOpen)) := by
        simp [text, elseMark]
      refine ⟨?_, ⟨'i', _, htext, by decide⟩, ?_⟩
      · rw [htext]
        simpa [Text.blockOpen] using hc
      · rw [ofText_opening _ _ htext, htext]
        simp [Text.blockOpen]
  | true =>
      have htext : (choice true c).text =
          ('}' :: " else if (".toList) ++ (c ++ (')' :: Text.blockOpen)) := by
        simp [text, elseMark, Text.blockElse]
      refine ⟨?_, ⟨'}', _, htext, by decide⟩, ?_⟩
      · rw [htext]
        simpa [Text.blockOpen] using hc
      · rw [ofText_opening _ _ htext, htext]
        simp [Text.blockOpen]

/-- Readable rows with the same texts are the same rows. -/
lemma map_text_inj {rows rows' : List Row} (h : ∀ r ∈ rows, r.IsReadable)
    (h' : ∀ r ∈ rows', r.IsReadable) (heq : rows.map text = rows'.map text) : rows = rows' := by
  have hread {rows : List Row} (h : ∀ r ∈ rows, r.IsReadable) :
      (rows.map text).map ofText = rows := by
    have hid : ∀ r ∈ rows, (ofText ∘ text) r = id r := fun r hr => (h r hr).ofText
    rw [List.map_map, List.map_congr_left hid, List.map_id]
  rw [← hread h, heq, hread h']

end Row

/-! ### Pieces that show rows -/

/-- Pieces with a readable row on each line, at any indent, and pieces without a text in between. -/
inductive Shows : List Piece → List Row → Prop
  | nil : Shows [] []
  | empty {ps : List Piece} {rows : List Row} (source : Option LineMap) (h : Shows ps rows) :
      Shows (.run source [] :: ps) rows
  | row {q : Piece} {r : Row} {ps : List Piece} {rows : List Row} (hr : r.IsReadable) (n : Nat)
      (hq : q.text = List.replicate n ' ' ++ r.text ++ ['\n']) (h : Shows ps rows) :
      Shows (q :: ps) (r :: rows)

namespace Shows

variable {ps qs : List Piece} {rows rows' : List Row}

lemma append (h : Shows ps rows) (h' : Shows qs rows') : Shows (ps ++ qs) (rows ++ rows') := by
  induction h with
  | nil => exact h'
  | empty source _ ih => exact empty source ih
  | row hr n hq _ ih => exact row hr n hq ih

lemma isReadable (h : Shows ps rows) : ∀ r ∈ rows, r.IsReadable := by
  induction h with
  | nil => exact fun r hr => absurd hr List.not_mem_nil
  | empty source _ ih => exact ih
  | row hr n hq _ ih => exact List.forall_mem_cons.mpr ⟨hr, ih⟩

lemma trimStart_row {r : Row} (hr : r.IsReadable) (n : Nat) :
    Text.trimStart (List.replicate n ' ' ++ r.text) = r.text := by
  obtain ⟨c, t, htext, hc⟩ := hr.begins
  have hblanks : ∀ d ∈ List.replicate n ' ', Text.isBlank d = true := fun d hd => by
    rw [List.eq_of_mem_replicate hd]
    decide
  rw [Text.trimStart, List.dropWhile_append_of_pos hblanks, htext,
    List.dropWhile_cons_of_neg (by simp [hc])]

/-- The lines of the text are the rows, behind their indents. -/
lemma lines_text (h : Shows ps rows) :
    (Text.lines (ps.flatMap Piece.text)).map Text.trimStart = rows.map Row.text ++ [[]] := by
  induction h with
  | nil => rfl
  | empty source _ ih => exact ih
  | @row q r ps rows hr n hq _ ih =>
      have hline : '\n' ∉ List.replicate n ' ' ++ r.text := by
        rw [List.mem_append]
        rintro (hmem | hmem)
        · exact absurd (List.eq_of_mem_replicate hmem) (by decide)
        · exact hr.oneLine hmem
      have hlines : Text.lines (List.replicate n ' ' ++ r.text ++ ['\n'] ++ ps.flatMap Piece.text) =
          (List.replicate n ' ' ++ r.text) :: Text.lines (ps.flatMap Piece.text) := by
        rw [Text.lines_append (Text.isWhole_concat _), Text.lines_concat, List.dropLast_concat,
          Text.lines, List.splitOn_eq_singleton hline]
        rfl
      rw [List.flatMap_cons, hq, hlines, List.map_cons, ih, trimStart_row hr]
      rfl

/-- **The text of pieces determines the rows that they show.** -/
theorem rows_inj (h : Shows ps rows) (h' : Shows qs rows')
    (htext : ps.flatMap Piece.text = qs.flatMap Piece.text) : rows = rows' := by
  have hlines := h.lines_text
  rw [htext, h'.lines_text] at hlines
  exact Row.map_text_inj h.isReadable h'.isReadable (List.append_cancel_right hlines).symm

end Shows

end Listing

end EventScript
