import EventScript.Proofs.Listing.Mapped
import EventScript.Proofs.Listing.Row
import EventScript.Proofs.Statement.Given

/-!
No line of a formatted script ends in a blank.

The pieces of a listing are printed one after the other, so it is enough that each of them holds
whole lines and that none of these ends in a blank. A label is one line, and the lines of a
statement come from its layout.

* `Event.givenTexts`: the texts in an event that are printed as they are given;
* `Listing.Piece.IsNeat`: pieces of lines that do not end in blanks, whatever a label is renamed to;
* `Listing.isNeat_statementPieces`, `Listing.isNeat_bodyPieces`: the pieces of clean statements;
* `Settings.lines_isTrimmed`: the lines of formatted events.
-/

namespace EventScript

/-! ### Events of given texts -/

/-- The given text of an id. -/
def EventId.givenTexts : EventId → List Text
  | number _ => []
  | placeholder code => [code]

namespace Event

/-- The texts in an event that are printed as they are given. -/
def givenTexts (e : Event) : List Text :=
  e.header.toList ++ e.id.givenTexts ++ e.parameters ++
    (Body.walk e.body).flatMap Statement.givenTexts

/-- An event whose texts and remarks are clean. -/
structure IsClean (e : Event) : Prop where
  texts : ∀ t ∈ e.givenTexts, t.IsClean
  remarks : ∀ r ∈ e.allRemarks, r.IsClean

namespace IsClean

variable {e : Event}

lemma statements (h : e.IsClean) : ∀ s ∈ Body.walk e.body, s.IsClean := by
  intro s hs
  refine ⟨fun t ht => h.texts t ?_, fun r hr => h.remarks r ?_⟩
  · exact List.mem_append_right _ (List.mem_flatMap_of_mem hs ht)
  · rw [allRemarks, Body.allRemarks_eq_flatMap]
    exact List.mem_append_left _ (List.mem_flatMap_of_mem hs hr)

lemma closingRemarks (h : e.IsClean) : ∀ r ∈ e.closingRemarks, r.IsClean := fun r hr =>
  h.remarks r (List.mem_append_right _ hr)

end IsClean

end Event

namespace Listing

open Layout

/-! ### Neat pieces -/

/-- A piece of lines that do not end in blanks. -/
def Piece.IsNeat : Piece → Prop
  | .run _ t => t.IsNeat
  | .label name suffix => '\n' ∉ name ∧ '\n' ∉ suffix ∧ suffix.IsTrimmed

lemma Piece.IsNeat.text {q : Piece} (h : q.IsNeat) : q.text.IsNeat := by
  cases q with
  | run source t => exact h
  | label name suffix =>
      obtain ⟨hname, hsuffix, htrimmed⟩ := h
      have hcolon : Text.endsInInk (name ++ [':']) = true :=
        Text.endsInInk_append (by decide) name
      refine Text.isNeat_line ?_
        (Text.isTrimmed_of_endsInInk (Text.endsInInk_append_of_isTrimmed hcolon htrimmed))
      simp [hname, hsuffix]

/-- A label may be renamed: underscores do not end a line. -/
lemma isNeat_tellApart {ps : List Piece} (h : ∀ q ∈ ps, q.IsNeat) (used : List Text) :
    ∀ q ∈ tellApart used ps, q.IsNeat := by
  induction ps generalizing used with
  | nil => exact h
  | cons q ps ih =>
      rw [List.forall_mem_cons] at h
      cases q with
      | run source t => exact List.forall_mem_cons.mpr ⟨h.1, ih h.2 used⟩
      | label name suffix =>
          obtain ⟨hname, hsuffix⟩ := h.1
          have hmark (n : Nat) : '\n' ∉ List.replicate n '_' := fun hmem =>
            absurd (List.eq_of_mem_replicate hmem) (by decide)
          refine List.forall_mem_cons.mpr ⟨⟨?_, hsuffix⟩, ih h.2 _⟩
          exact List.not_mem_append hname (hmark _)

/-- A line of blanks in front and a clean text. -/
lemma Piece.isNeat_line (source : Option LineMap) {sp t : Text} (hsp : '\n' ∉ sp)
    (ht : t.IsClean) : (Piece.run source (sp ++ (t ++ ['\n']))).IsNeat := by
  have hline := Text.isClean_append hsp ht
  rw [← List.append_assoc]
  exact Text.isNeat_line hline.oneLine hline.isTrimmed

section

variable {k : Settings}

lemma notMem_indentAt (depth : Nat) : '\n' ∉ (Page.ofSettings k).indentAt depth :=
  (Page.isIndent_indentAt _ depth).notMem

lemma isNeat_remarkLines {sp : Text} (hsp : '\n' ∉ sp) {rs : List Remark}
    (h : ∀ r ∈ rs, r.IsClean) : ∀ q ∈ remarkLines sp rs, q.IsNeat := by
  rw [remarkLines, Remark.linesAbove, List.forall_mem_map, List.forall_mem_map]
  intro r hr
  have htext := (h r (List.mem_of_mem_filter hr)).text
  exact Remark.isNeat_lineAt hsp htext.1 htext.2

/-! ### Bodies -/

variable {s : Statement}

lemma isNeat_leadPieces (depth : Nat) (h : s.IsClean) :
    ∀ q ∈ leadPieces ((Page.ofSettings k).indentAt depth) s.tags, q.IsNeat := by
  rw [leadPieces, List.forall_mem_append, List.forall_mem_map]
  refine ⟨isNeat_remarkLines (notMem_indentAt depth) h.tagRemarks, fun name hname => ?_⟩
  exact ⟨(h.labels name hname).oneLine, List.not_mem_nil, Text.isTrimmed_nil⟩

/-- **The lines of a clean statement are neat**, those of its bodies left out. -/
lemma isNeat_headPiece (depth : Nat) {before : Text} (hbefore : '\n' ∉ before) (h : s.IsClean) :
    (headPiece (.ofSettings k) ((Page.ofSettings k).indentAt depth) before s).IsNeat :=
  h.isNeat_layout.renderLine s.isTidy_layout h.layoutRemarks (Page.isIndent_indent _).notMem
    (notMem_indentAt depth) hbefore (Remark.notMem_suffix_of_isClean h.tagRemarks)
    (Remark.isTrimmed_suffix h.tagRemarks)

lemma isNeat_closing (depth : Nat) :
    (closing ((Page.ofSettings k).indentAt depth)).IsNeat :=
  Piece.isNeat_line none (notMem_indentAt depth) (t := Text.blockClose) (by decide)

lemma isNeat_dividing (depth : Nat) :
    (dividing ((Page.ofSettings k).indentAt depth)).IsNeat :=
  Piece.isNeat_line none (notMem_indentAt depth) (t := Text.blockElse ++ ['{']) (by decide)

lemma isNeat_actionPieces (depth : Nat) {before : Text} (hbefore : '\n' ∉ before)
    (afterLabel isLast : Bool) {tags : Tags} {a : Action}
    (h : (Statement.simple tags a).IsClean) :
    ∀ q ∈ actionPieces (.ofSettings k) depth before afterLabel isLast tags a, q.IsNeat := by
  have hhead := isNeat_headPiece (k := k) depth hbefore h
  have hsingle := List.forall_mem_singleton.mpr hhead
  cases a with
  | noOp =>
      rw [actionPieces_noOp]
      split
      · exact List.forall_mem_singleton.mpr Text.isNeat_nil
      · exact hsingle
  | label number =>
      have hname : '\n' ∉ Label.name number := by simp [Label.name, Text.notMem_ofNat]
      have hlabel : (Piece.label (Label.name number) (Remark.suffix tags.remarks)).IsNeat :=
        ⟨hname, Remark.notMem_suffix_of_isClean h.tagRemarks, Remark.isTrimmed_suffix h.tagRemarks⟩
      rw [actionPieces_label]
      refine List.forall_mem_cons.mpr ⟨Text.isNeat_nil, List.forall_mem_cons.mpr ⟨hlabel, ?_⟩⟩
      split
      · exact List.forall_mem_singleton.mpr
          (Piece.isNeat_line none (notMem_indentAt depth) (t := "NoOp();".toList) (by decide))
      · exact fun _ hq => absurd hq List.not_mem_nil
  | _ => exact hsingle

/-- What follows the first branch of a choice is neat if the second one is. -/
lemma isNeat_elsePieces (depth : Nat) {no : Body}
    (h : ∀ (depth : Nat) (before : Text), '\n' ∉ before →
      ∀ q ∈ bodyPieces (.ofSettings k) depth before false no, q.IsNeat) :
    ∀ q ∈ elsePieces (.ofSettings k) depth no, q.IsNeat := by
  cases no with
  | nil => exact List.forall_mem_singleton.mpr (isNeat_closing depth)
  | cons t rest =>
      rw [elsePieces_cons]
      split
      · exact h depth _ (by decide)
      · rw [List.forall_mem_cons, List.forall_mem_append, List.forall_mem_singleton]
        exact ⟨isNeat_dividing depth, h (depth + 1) [] List.not_mem_nil, isNeat_closing depth⟩

mutual

/-- **The lines of a clean statement are neat**, with those of all that is nested in it. -/
theorem isNeat_statementPieces : ∀ (s : Statement) (depth : Nat) (before : Text)
    (afterLabel isLast : Bool), (∀ u ∈ s.walk, u.IsClean) → '\n' ∉ before →
      ∀ q ∈ statementPieces (.ofSettings k) depth before afterLabel isLast s, q.IsNeat
  | .simple tags a, depth, before, afterLabel, isLast, h, hbefore => by
      rw [Statement.walk, List.forall_mem_singleton] at h
      rw [statementPieces, List.forall_mem_append]
      exact ⟨isNeat_leadPieces depth h, isNeat_actionPieces depth hbefore afterLabel isLast h⟩
  | .loop tags code body, depth, before, afterLabel, isLast, h, hbefore => by
      rw [Statement.walk, List.forall_mem_append, List.forall_mem_singleton] at h
      have hbody := isNeat_bodyPieces body (depth + 1) [] false h.1 List.not_mem_nil
      rw [statementPieces, List.forall_mem_append, List.forall_mem_cons, List.forall_mem_append,
        List.forall_mem_singleton]
      exact ⟨isNeat_leadPieces depth h.2, isNeat_headPiece depth hbefore h.2, hbody,
        isNeat_closing depth⟩
  | .choice tags c yes no, depth, before, afterLabel, isLast, h, hbefore => by
      rw [Statement.walk, List.forall_mem_append, List.forall_mem_append,
        List.forall_mem_singleton] at h
      obtain ⟨⟨hyes, hno⟩, hs⟩ := h
      have hfirst := isNeat_bodyPieces yes (depth + 1) [] false hyes List.not_mem_nil
      have hsecond := isNeat_elsePieces depth fun depth before hbefore =>
        isNeat_bodyPieces no depth before false hno hbefore
      rw [statementPieces_choice, List.forall_mem_append, List.forall_mem_cons,
        List.forall_mem_append]
      exact ⟨isNeat_leadPieces depth hs, isNeat_headPiece depth hbefore hs, hfirst, hsecond⟩

/-- **The lines of clean bodies are neat**, with those of all that is nested in them. -/
theorem isNeat_bodyPieces : ∀ (body : List Statement) (depth : Nat) (before : Text)
    (afterLabel : Bool), (∀ u ∈ Body.walk body, u.IsClean) → '\n' ∉ before →
      ∀ q ∈ bodyPieces (.ofSettings k) depth before afterLabel body, q.IsNeat
  | [], depth, before, afterLabel, h, hbefore => fun _ hq => absurd hq List.not_mem_nil
  | s :: rest, depth, before, afterLabel, h, hbefore => by
      rw [Body.walk, List.forall_mem_append] at h
      rw [bodyPieces, List.forall_mem_append]
      exact ⟨isNeat_statementPieces s depth before afterLabel rest.isEmpty h.1 hbefore,
        isNeat_bodyPieces rest depth [] s.isLabel h.2 List.not_mem_nil⟩

end

/-! ### Events -/

variable {e : Event}

lemma isNeat_openingLine (h : e.IsClean) : (openingLine e).IsNeat := by
  have hid : '\n' ∉ e.id.text := by
    have htexts := h.texts
    rw [Event.givenTexts] at htexts
    cases hcode : e.id with
    | number n => exact (Text.isClean_ofInt n).oneLine
    | placeholder code => exact (htexts code (by simp [hcode, EventId.givenTexts])).oneLine
  have hparameters : '\n' ∉ Text.commaList e.parameters := by
    refine Text.notMem_commaList (by decide) (by decide) fun t ht => (h.texts t ?_).oneLine
    exact List.mem_append_left _ (List.mem_append_right _ ht)
  have hkeyword : '\n' ∉ e.keyword := by rw [Event.keyword]; split <;> decide
  have hrest : '\n' ∉ e.rest.text := by cases e.rest <;> decide
  have hhead : '\n' ∉ e.declarationHead ++ Text.commaList e.parameters := by
    have hfunction : '\n' ∉ ", function(".toList := by decide
    simp [Event.declarationHead, hkeyword, hid, hrest, hparameters]
  exact Piece.isNeat_line none hhead (t := ')' :: Text.blockOpen) (by decide)

lemma isNeat_closingPieces (h : e.IsClean) :
    ∀ q ∈ closingPieces (.ofSettings k) e, q.IsNeat := by
  have hend : Text.endsInInk (Event.closingMark ++ Remark.suffix e.closingRemarks) = true :=
    Text.endsInInk_append_of_isTrimmed (by decide) (Remark.isTrimmed_suffix h.closingRemarks)
  rw [closingPieces, List.forall_mem_append, List.forall_mem_singleton]
  refine ⟨isNeat_remarkLines (Page.isIndent_indent _).notMem h.closingRemarks, ?_⟩
  have hmark : '\n' ∉ Event.closingMark := by decide
  refine Text.isNeat_line ?_ (Text.isTrimmed_of_endsInInk hend)
  simp [hmark, Remark.notMem_suffix_of_isClean h.closingRemarks]

/-- **The declaration of a clean event is neat**, whether its labels are told apart or not. -/
lemma isNeat_declaredPieces (h : e.IsClean) : ∀ q ∈ declaredPieces k e, q.IsNeat := by
  have hpieces : ∀ q ∈ declarationPieces (.ofSettings k) e, q.IsNeat := by
    rw [declarationPieces, List.forall_mem_cons, List.forall_mem_append]
    exact ⟨isNeat_openingLine h,
      isNeat_bodyPieces e.body 1 [] false h.statements List.not_mem_nil, isNeat_closingPieces h⟩
  rw [declaredPieces]
  split
  · exact isNeat_tellApart hpieces []
  · exact hpieces

lemma isNeat_headerSection (h : e.IsClean) : (text (headerSection e)).IsNeat := by
  rw [headerSection]
  cases hheader : e.header with
  | none => exact Text.isNeat_nil
  | some header =>
      have hclean : header.IsClean := h.texts header (by simp [Event.givenTexts, hheader])
      have hlast : header.getLast? ≠ some '\n' := fun hlast =>
        hclean.oneLine (List.mem_of_getLast? hlast)
      have htext : text [⟨e.headerLines, [.plain (headerText header)]⟩] = header ++ ['\n'] := by
        simp [text, Section.text, Piece.plain, Piece.text, headerText, hlast]
      rw [htext]
      exact Text.isNeat_line hclean.oneLine hclean.isTrimmed

/-- The listing of a clean event is neat. -/
lemma isNeat_text_ofEvent (k : Settings) (h : e.IsClean) : (ofEvent k e).text.IsNeat := by
  rw [text_ofEvent]
  exact (isNeat_headerSection h).append
    (Text.isNeat_flatMap fun q hq => (isNeat_declaredPieces h q hq).text)

/-- The listing of clean events is neat if what is put in front of the first one is. -/
lemma isNeat_text_ofEvents (k : Settings) {lead : Listing} (hlead : lead.text.IsNeat)
    {events : List Event} (h : ∀ e ∈ events, e.IsClean) : (ofEvents k lead events).text.IsNeat := by
  induction events generalizing lead with
  | nil => exact Text.isNeat_nil
  | cons e events ih =>
      rw [List.forall_mem_cons] at h
      have hgap : (text Settings.gap).IsNeat := Text.isNeat_line List.not_mem_nil Text.isTrimmed_nil
      rw [ofEvents, text_append, text_append]
      exact (hlead.append (isNeat_text_ofEvent k h.1)).append (ih hgap h.2)

end

end Listing

namespace Settings

/-- **No line of a formatted script ends in a blank**, wherever lines are broken, if the texts that
are printed as they are given and all comments are clean: they are on one line, not empty, and do
not end in blanks themselves. -/
theorem lines_isTrimmed {k : Settings} {events : List Event} {f : Formatted}
    (h : k.format events = .ok f) (htexts : ∀ e ∈ events, ∀ t ∈ e.givenTexts, t.IsClean)
    (hremarks : ∀ e ∈ events, ∀ r ∈ e.allRemarks, r.kind ≠ .blank → r.comment.IsClean) :
    ∀ line ∈ f.text.lines, ∀ c ∈ line.getLast?, Text.isBlank c = false := by
  have hclean : ∀ e ∈ events, e.IsClean := fun e he => ⟨htexts e he, hremarks e he⟩
  have hlead : (Listing.text []).IsNeat := Text.isNeat_nil
  rw [(Listing.eq_ofEvents_of_format h).1]
  exact (Listing.isNeat_text_ofEvents k hlead hclean).lines

/-- A script with a call that is broken behind its head and a wait that is broken at each of its
parts, with remarks at both. -/
def brokenCalls : Event where
  header := some "// generated".toList
  parameters := ["X0_4".toList]
  body := [
    .simple { labels := ["start".toList], remarks := [.ofComment .trailing "// both".toList] }
      (.wait (.combine .all [Statement.flagTest 1 [.ofComment .trailing "// one".toList],
        .atom (.read 0 false (some "ready".toList)) false [.ofComment .above "// two".toList],
        .atom (.compare .less (.value (.parameter "X0_4".toList)) (.float ⟨0x3FF8000000000000⟩))
          false []] false []) false),
    .simple { remarks := [.ofComment .blank "  ".toList] }
      (.jump (.label "start".toList) (Statement.flagTest 4321 []))]
  closingRemarks := [.ofComment .trailing "// end".toList]

/-- The line behind the head of the call is trimmed, remarks at the ends of lines go behind their
text, and a blank remark is an empty line whatever its comment. -/
theorem lines_isTrimmed_brokenCalls :
    ∃ f : Formatted, ({ columnLimit := 20 } : Settings).format [brokenCalls] = .ok f ∧
      f.text = "// generated
Event(0, Default, function(X0_4) {
start:
    WaitFor(
        Flag(1) // one
            // two
            && ready
            && X0_4 < 1.5); // both

    GotoIf(start,
        Flag(4321));
}); // end
".toList ∧
      ∀ line ∈ f.text.lines, ∀ c ∈ line.getLast?, Text.isBlank c = false := by
  obtain ⟨maps, hf⟩ := ({ columnLimit := 20 } : Settings).format_of_accepted (e := brokenCalls) rfl
  have htexts : ∀ t ∈ brokenCalls.givenTexts, t.IsClean := by decide
  have hremarks : ∀ r ∈ brokenCalls.allRemarks, r.kind ≠ .blank → r.comment.IsClean := by decide
  refine ⟨_, hf, ?_, lines_isTrimmed hf (List.forall_mem_singleton.mpr htexts)
    (List.forall_mem_singleton.mpr hremarks)⟩
  set_option maxRecDepth 4000 in
  refine Text.eq_toList (congrArg String.ofList ?_)
  show (Listing.ofEvent { columnLimit := 20 } brokenCalls).text = _
  decide +kernel

end Settings

end EventScript
