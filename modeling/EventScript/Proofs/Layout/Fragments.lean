import EventScript.Proofs.Layout.CodeLine

/-!
Where the fragments of a statement begin.

Read from top to bottom, the lines of a statement hold its fragments in order, and each one stands
on its line with the text that it has up to the first place where it may be broken. A line is broken
where a fragment that begins on it goes on below.

* `Layout.Tree.flatMap_fragments_codeLines`: every fragment begins on one line;
* `Layout.CodeLine.IsSound`, `Layout.Tree.isSound_codeLines`: what the fragments on a line say about
  it.
-/

namespace EventScript.Layout

namespace Tree

mutual

/-- The text of a fragment up to the first place where its line may be broken. -/
def head : Tree → Text
  | node opening parts _ _ _ => opening ++ partsHead parts

/-- The text of the parts of a node up to the first place where their line may be broken, which is
in front of the second one at the latest. -/
def partsHead : List Tree → Text
  | [] => []
  | t :: _ => t.head

end

mutual

/-- A fragment in another one has its fragments among those of the other. -/
lemma fragments_sublist {u : Tree} : ∀ t : Tree, u ∈ t.fragments → u.fragments.Sublist t.fragments
  | node opening parts separator closing rs, h => by
      rw [fragments, List.mem_cons] at h
      rcases h with rfl | h
      · exact List.Sublist.refl _
      · rw [fragments.eq_def (node opening parts separator closing rs)]
        exact (fragments_sublist_partFragments parts h).cons _

lemma fragments_sublist_partFragments {u : Tree} : ∀ ts : List Tree, u ∈ partFragments ts →
    u.fragments.Sublist (partFragments ts)
  | [], h => absurd h List.not_mem_nil
  | t :: ts, h => by
      rw [partFragments, List.mem_append] at h
      rw [partFragments]
      rcases h with h | h
      · exact (fragments_sublist t h).trans (List.sublist_append_left _ _)
      · exact (fragments_sublist_partFragments ts h).trans (List.sublist_append_right _ _)

end

mutual

/-- A fragment in another one is part of its text. -/
lemma oneLine_isInfix {u : Tree} : ∀ t : Tree, u ∈ t.fragments → u.oneLine <:+: t.oneLine
  | node opening parts separator closing rs, h => by
      rw [fragments, List.mem_cons] at h
      rcases h with rfl | h
      · exact List.infix_rfl
      · obtain ⟨a, b, hparts⟩ := oneLine_isInfix_parts separator parts h
        exact ⟨opening ++ a, b ++ closing, by simp only [oneLine, ← hparts, List.append_assoc]⟩

lemma oneLine_isInfix_parts {u : Tree} (separator : Text) : ∀ ts : List Tree,
    u ∈ partFragments ts → u.oneLine <:+: separator.intercalate (partTexts ts)
  | [], h => absurd h List.not_mem_nil
  | [t], h => by
      rw [partFragments, partFragments, List.append_nil] at h
      rw [partTexts, partTexts, List.intercalate_singleton]
      exact oneLine_isInfix t h
  | t :: v :: ts, h => by
      have hrest := oneLine_isInfix_parts (u := u) separator (v :: ts)
      rw [partTexts] at hrest
      rw [partFragments, List.mem_append] at h
      rw [partTexts, partTexts, List.intercalate_cons_cons, List.append_assoc]
      rcases h with h | h
      · exact (oneLine_isInfix t h).trans (List.prefix_append _ _).isInfix
      · exact (hrest h).trans ((List.suffix_append _ _).trans (List.suffix_append _ _)).isInfix

end

mutual

lemma head_prefix_oneLine : ∀ t : Tree, t.head <+: t.oneLine
  | node opening parts separator closing rs => by
      rw [head, oneLine, List.append_assoc, List.prefix_append_right_inj]
      exact (partsHead_isPrefix separator parts).trans (List.prefix_append _ _)

lemma partsHead_isPrefix (separator : Text) : ∀ ts : List Tree,
    partsHead ts <+: separator.intercalate (partTexts ts)
  | [] => List.nil_prefix
  | [t] => by
      rw [partTexts, partTexts, List.intercalate_singleton]
      exact head_prefix_oneLine t
  | t :: v :: ts => by
      rw [partTexts, partTexts, List.intercalate_cons_cons, List.append_assoc]
      exact (head_prefix_oneLine t).trans (List.prefix_append _ _)

end

end Tree

/-! ### Trimmed texts -/

lemma trimEnd_append_of_not_hasInk {bs : Text} (h : Tree.hasInk bs = false) (t : Text) :
    Text.trimEnd (t ++ bs) = Text.trimEnd t := by
  have hblank : ∀ c ∈ bs.reverse, Text.isBlank c = true := by
    simpa [Tree.hasInk] using h
  rw [Text.trimEnd, List.reverse_append, List.dropWhile_append_of_pos hblank, ← Text.trimEnd]

lemma trimEnd_trimEnd (t : Text) : Text.trimEnd (Text.trimEnd t) = Text.trimEnd t := by
  obtain ⟨bs, hbs, h⟩ := Text.exists_trimEnd_append t
  have hink : Tree.hasInk bs = false := by simpa [Tree.hasInk] using hbs
  have hcut := trimEnd_append_of_not_hasInk hink (Text.trimEnd t)
  rw [h] at hcut
  exact hcut.symm

lemma trimEnd_isPrefix (t : Text) : Text.trimEnd t <+: t := by
  obtain ⟨bs, -, h⟩ := Text.exists_trimEnd_append t
  exact ⟨bs, h⟩

/-- A text goes on where it is trimmed only with more ink behind. -/
lemma trimEnd_prefix_append (t u : Text) : Text.trimEnd t <+: Text.trimEnd (t ++ u) := by
  by_cases hink : Tree.hasInk u = true
  · rw [trimEnd_append hink]
    exact (trimEnd_isPrefix t).trans (List.prefix_append _ _)
  · have heq := trimEnd_append_of_not_hasInk (Bool.eq_false_iff.mpr hink) t
    exact ⟨[], (List.append_nil _).trans heq.symm⟩

lemma trimEnd_append_isPrefix {t code : Text} (h : Text.trimEnd t <+: code) (mark : Text) :
    Text.trimEnd (mark ++ t) <+: mark ++ code := by
  by_cases hink : Tree.hasInk t = true
  · rw [trimEnd_append hink, List.prefix_append_right_inj]
    exact h
  · rw [trimEnd_append_of_not_hasInk (Bool.eq_false_iff.mpr hink)]
    exact (trimEnd_isPrefix mark).trans (List.prefix_append _ _)

/-- Trimming a line cuts no trimmed text at its start. -/
lemma prefix_trimEnd {t code : Text} (h : Text.trimEnd t <+: code) :
    Text.trimEnd t <+: Text.trimEnd code := by
  obtain ⟨rest, rfl⟩ := h
  have htrimmed := trimEnd_prefix_append (Text.trimEnd t) rest
  rwa [trimEnd_trimEnd] at htrimmed

/-- Trimming a line cuts no trimmed text on it, wherever that stands. -/
lemma infix_trimEnd {t code : Text} (h : Text.trimEnd t <:+: code) :
    Text.trimEnd t <:+: Text.trimEnd code := by
  obtain ⟨front, rest, rfl⟩ := h
  have htrimmed := trimEnd_prefix_append (Text.trimEnd t) rest
  rw [trimEnd_trimEnd] at htrimmed
  rw [List.append_assoc]
  by_cases hink : Tree.hasInk (Text.trimEnd t ++ rest) = true
  · rw [trimEnd_append hink]
    exact htrimmed.isInfix.trans (List.suffix_append _ _).isInfix
  · rw [Tree.hasInk_append, Bool.or_eq_true, not_or] at hink
    have hnil := trimEnd_append_of_not_hasInk (Bool.eq_false_iff.mpr hink.1) []
    rw [List.nil_append, trimEnd_trimEnd] at hnil
    rw [hnil]
    exact List.nil_infix

/-! ### The lines of a fragment -/

namespace CodeLine

/-- What the fragments on a line say about it: they stand on it up to where they may first be
broken, and it is broken when more fragments are in one of them than begin on it. -/
structure IsSound (l : CodeLine) : Prop where
  head_isInfix : ∀ u ∈ l.fragments, Text.trimEnd u.head <:+: l.code
  isBroken_iff : l.isBroken = true ↔ ∃ u ∈ l.fragments, l.fragments.length < u.fragments.length

lemma broken_ended (f : Text → Text) (ls : List CodeLine) :
    broken (ended f ls) = ended f (broken ls) := by
  obtain _ | ⟨l, _ | ⟨m, ls⟩⟩ := ls <;> rfl

/-- Lines the first of which a fragment begins on. -/
def Starts (t : Tree) (ls : List CodeLine) : Prop :=
  ∃ l ms, ls = l :: ms ∧ t ∈ l.fragments ∧ Text.trimEnd t.head <+: l.code

section Sound

variable {t : Tree} {f : Text → Text} {l : CodeLine} {ls : List CodeLine}

lemma Starts.append (h : Starts t ls) (ms : List CodeLine) : Starts t (ls ++ ms) := by
  obtain ⟨l, ks, rfl, ht, hcode⟩ := h
  exact ⟨l, ks ++ ms, rfl, ht, hcode⟩

lemma Starts.broken (h : Starts t ls) : Starts t (CodeLine.broken ls) := by
  obtain ⟨l, ks, rfl, ht, hcode⟩ := h
  exact ⟨_, ks, rfl, ht, hcode⟩

lemma Starts.ended (h : Starts t ls)
    (hf : ∀ code, Text.trimEnd t.head <+: code → Text.trimEnd t.head <+: f code) :
    Starts t (CodeLine.ended f ls) := by
  obtain ⟨l, ks, rfl, ht, hcode⟩ := h
  cases ks with
  | nil => exact ⟨_, [], rfl, ht, hf _ hcode⟩
  | cons k ks => exact ⟨l, _, rfl, ht, hcode⟩

/-- A node begins with its opening text and its first part. -/
lemma Starts.opened (h : Starts t ls) (opening separator closing : Text) (ts : List Tree)
    (rs : List Remark) :
    Starts (.node opening (t :: ts) separator closing rs)
      (CodeLine.opened opening [.node opening (t :: ts) separator closing rs] ls) := by
  obtain ⟨l, ks, rfl, -, hcode⟩ := h
  refine ⟨_, ks, rfl, List.mem_cons_self, ?_⟩
  rw [Tree.head, Tree.partsHead]
  exact trimEnd_append_isPrefix hcode opening

/-- The text of a line may grow, or be trimmed at the end. -/
lemma IsSound.of_code (h : IsSound l) {code : Text}
    (hcode : ∀ u : Text, Text.trimEnd u <:+: l.code → Text.trimEnd u <:+: code) :
    IsSound { l with code := code } :=
  ⟨fun u hu => hcode _ (h.head_isInfix u hu), h.isBroken_iff⟩

/-- On the first line of a node stand its own text and that of the fragments on this line. -/
lemma Starts.head_isInfix (hstarts : Starts t (l :: ls)) (h : IsSound l)
    (opening separator closing : Text) (ts : List Tree) (rs : List Remark) :
    ∀ u ∈ [.node opening (t :: ts) separator closing rs] ++ l.fragments,
      Text.trimEnd u.head <:+: opening ++ l.code := by
  obtain ⟨_, _, hlines, -, hcode⟩ := hstarts.opened opening separator closing ts rs
  obtain ⟨rfl, -⟩ := List.cons.inj hlines
  refine List.forall_mem_cons.mpr ⟨hcode.isInfix, fun u hu => ?_⟩
  exact (h.head_isInfix u hu).trans (List.suffix_append _ _).isInfix

/-- The line of a node with a single part is broken where that of the part is. -/
lemma forall_isSound_opened_only (h : ∀ l ∈ ls, IsSound l) (hstarts : Starts t ls)
    (hfragments : ls.flatMap fragments = t.fragments) (opening separator closing : Text)
    (rs : List Remark) :
    ∀ l ∈ CodeLine.opened opening [.node opening [t] separator closing rs] ls, IsSound l := by
  have hlines := hstarts
  obtain ⟨l, ms, rfl, ht, -⟩ := hlines
  rw [List.forall_mem_cons] at h
  refine List.forall_mem_cons.mpr ⟨⟨?_, ?_⟩, h.2⟩
  · exact hstarts.head_isInfix h.1 _ _ _ _ _
  · have hlength :
        (Tree.node opening [t] separator closing rs).fragments.length = t.fragments.length + 1 := by
      rw [Tree.fragments, Tree.partFragments, Tree.partFragments, List.append_nil, List.length_cons]
    have hle : ∀ u ∈ l.fragments, u.fragments.length ≤ t.fragments.length := by
      intro u hu
      refine (Tree.fragments_sublist t ?_).length_le
      rw [← hfragments]
      exact List.mem_append_left _ hu
    simp only [List.singleton_append, List.length_cons]
    refine h.1.isBroken_iff.trans ⟨?_, ?_⟩
    · rintro ⟨u, hu, hlt⟩
      have hu' := hle u hu
      exact ⟨_, List.mem_cons_self, by omega⟩
    · rintro ⟨u, hu, hlt⟩
      rcases List.mem_cons.mp hu with rfl | hu
      · exact ⟨t, ht, by omega⟩
      · exact ⟨u, hu, by omega⟩

/-- The first line of a node with further parts is broken. -/
lemma forall_isSound_broken_opened (h : ∀ l ∈ ls, IsSound l) (hstarts : Starts t ls)
    (hfragments : ls.flatMap fragments = t.fragments) (opening separator closing : Text)
    (next : Tree) (ts : List Tree) (rs : List Remark) :
    ∀ l ∈ CodeLine.broken
      (CodeLine.opened opening [.node opening (t :: next :: ts) separator closing rs] ls),
      IsSound l := by
  have hlines := hstarts
  obtain ⟨l, ms, rfl, -⟩ := hlines
  rw [List.forall_mem_cons] at h
  refine List.forall_mem_cons.mpr ⟨⟨?_, ?_⟩, h.2⟩
  · exact hstarts.head_isInfix h.1 _ _ _ _ _
  · refine iff_of_true rfl ⟨_, List.mem_cons_self, ?_⟩
    have hle : l.fragments.length ≤ t.fragments.length := by
      rw [← hfragments]
      exact (List.sublist_append_left _ _).length_le
    obtain ⟨opening', parts, separator', closing', rs'⟩ := next
    rw [Tree.fragments, Tree.partFragments, Tree.partFragments, Tree.fragments]
    simp only [List.singleton_append, List.length_cons, List.length_append]
    omega

/-- The line of a fragment that is not broken is sound. -/
lemma isSound_flat (sp : Text) (t : Tree) : IsSound (.flat sp t) := by
  constructor
  · intro u hu
    have hhead := (trimEnd_isPrefix u.head).trans u.head_prefix_oneLine
    exact hhead.isInfix.trans (Tree.oneLine_isInfix t hu)
  · constructor
    · intro hflat
      cases hflat
    · rintro ⟨u, hu, hlt⟩
      exact absurd hlt (Nat.not_lt.mpr (Tree.fragments_sublist t hu).length_le)

lemma forall_isSound_ended (h : ∀ l ∈ ls, IsSound l)
    (hf : ∀ u code : Text, Text.trimEnd u <:+: code → Text.trimEnd u <:+: f code) :
    ∀ l ∈ CodeLine.ended f ls, IsSound l := by
  induction ls with
  | nil => exact h
  | cons k ks ih =>
      rw [List.forall_mem_cons] at h
      cases ks with
      | nil => exact List.forall_mem_singleton.mpr (h.1.of_code fun u => hf u _)
      | cons m ks => exact List.forall_mem_cons.mpr ⟨h.1, ih h.2⟩

lemma forall_isSound_opened (h : ∀ l ∈ ls, IsSound l) (mark : Text) :
    ∀ l ∈ CodeLine.opened mark [] ls, IsSound l := by
  cases ls with
  | nil => exact h
  | cons k ks =>
      rw [List.forall_mem_cons] at h
      refine List.forall_mem_cons.mpr ⟨h.1.of_code fun u hu => ?_, h.2⟩
      exact hu.trans (List.suffix_append _ _).isInfix

end Sound

lemma flatMap_fragments_opened {ls : List CodeLine} (h : ls ≠ []) (mark : Text) (ts : List Tree) :
    (opened mark ts ls).flatMap fragments = ts ++ ls.flatMap fragments := by
  cases ls with
  | nil => exact absurd rfl h
  | cons l ls => simp only [opened, List.flatMap_cons, List.append_assoc]

@[simp] lemma flatMap_fragments_ended (f : Text → Text) (ls : List CodeLine) :
    (ended f ls).flatMap fragments = ls.flatMap fragments := by
  induction ls with
  | nil => rfl
  | cons l ls ih =>
      cases ls with
      | nil => rfl
      | cons m ls => rw [ended, List.flatMap_cons, ih, ← List.flatMap_cons]

@[simp] lemma flatMap_fragments_broken (ls : List CodeLine) :
    (broken ls).flatMap fragments = ls.flatMap fragments := by
  cases ls <;> rfl

end CodeLine

namespace Tree

open CodeLine

section Fragments

variable {p : Page}

mutual

/-- **Every fragment begins on one line**: read from top to bottom the lines hold the fragments in
order. -/
theorem flatMap_fragments_codeLines : ∀ (t : Tree) (sp : Text) (column trailing : Nat),
    (codeLines p sp column trailing t).flatMap CodeLine.fragments = t.fragments
  | node opening parts separator closing remarks, sp, column, trailing => by
      rw [codeLines.eq_def]
      simp only
      split
      · exact List.append_nil _
      · match parts with
        | [] => exact List.append_nil _
        | [only] =>
            rw [flatMap_fragments_ended,
              flatMap_fragments_opened (isStretch_codeLines only sp _ _).ne_nil,
              flatMap_fragments_codeLines only, fragments, partFragments, partFragments,
              List.append_nil, List.singleton_append]
        | first :: second :: rest =>
            rw [List.flatMap_append, flatMap_fragments_broken, flatMap_fragments_ended,
              flatMap_fragments_opened (isStretch_codeLines first sp _ _).ne_nil,
              flatMap_fragments_codeLines first, flatMap_fragments_furtherLines (second :: rest),
              fragments, partFragments.eq_2 first, List.append_assoc, List.singleton_append]

lemma flatMap_fragments_furtherLines : ∀ (ts : List Tree) (sp mark closing : Text) (trailing : Nat),
    (furtherLines p sp mark closing trailing ts).flatMap CodeLine.fragments = partFragments ts
  | [], _, _, _, _ => rfl
  | [last], sp, mark, closing, trailing => by
      rw [furtherLines, flatMap_fragments_ended,
        flatMap_fragments_opened (isStretch_codeLines last sp _ _).ne_nil,
        flatMap_fragments_codeLines last, partFragments, partFragments, List.append_nil,
        List.nil_append]
  | middle :: next :: rest, sp, mark, closing, trailing => by
      rw [furtherLines, List.flatMap_append,
        flatMap_fragments_opened (isStretch_codeLines middle sp _ _).ne_nil,
        flatMap_fragments_codeLines middle, flatMap_fragments_furtherLines (next :: rest),
        partFragments.eq_2 middle, List.nil_append]

end

lemma starts_codeLines : ∀ (t : Tree) (sp : Text) (column trailing : Nat),
    Starts t (codeLines p sp column trailing t)
  | node opening parts separator closing remarks, sp, column, trailing => by
      have hflat : Text.trimEnd (node opening parts separator closing remarks).head <+:
          (node opening parts separator closing remarks).oneLine :=
        (trimEnd_isPrefix _).trans (head_prefix_oneLine _)
      rw [codeLines.eq_def]
      simp only
      split
      · exact ⟨_, [], rfl, List.mem_cons_self, hflat⟩
      · match parts with
        | [] => exact ⟨_, [], rfl, List.mem_cons_self, hflat⟩
        | [only] =>
            refine ((starts_codeLines only sp _ _).opened _ _ _ _ _).ended fun code hcode => ?_
            exact hcode.trans (List.prefix_append _ _)
        | first :: second :: rest =>
            refine Starts.append (Starts.broken ?_) _
            exact ((starts_codeLines first sp _ _).opened _ _ _ _ _).ended
              fun _ hcode => prefix_trimEnd hcode

mutual

/-- **The lines of a fragment are sound.** -/
theorem isSound_codeLines : ∀ (t : Tree) (sp : Text) (column trailing : Nat),
    ∀ l ∈ codeLines p sp column trailing t, IsSound l
  | node opening parts separator closing remarks, sp, column, trailing => by
      rw [codeLines.eq_def]
      simp only
      split
      · exact List.forall_mem_singleton.mpr (isSound_flat _ _)
      · match parts with
        | [] => exact List.forall_mem_singleton.mpr (isSound_flat _ _)
        | [only] =>
            refine forall_isSound_ended ?_ fun _ _ hcode =>
              hcode.trans (List.prefix_append _ _).isInfix
            exact forall_isSound_opened_only (isSound_codeLines only sp _ _)
              (starts_codeLines only sp _ _) (flatMap_fragments_codeLines only sp _ _) _ _ _ _
        | first :: second :: rest =>
            refine List.forall_mem_append.mpr ⟨?_, isSound_furtherLines (second :: rest) _ _ _ _⟩
            rw [broken_ended]
            refine forall_isSound_ended ?_ fun _ _ => infix_trimEnd
            exact forall_isSound_broken_opened (isSound_codeLines first sp _ _)
              (starts_codeLines first sp _ _) (flatMap_fragments_codeLines first sp _ _) _ _ _ _ _ _

lemma isSound_furtherLines : ∀ (ts : List Tree) (sp mark closing : Text) (trailing : Nat),
    ∀ l ∈ furtherLines p sp mark closing trailing ts, IsSound l
  | [], _, _, _, _ => List.forall_mem_nil _
  | [last], sp, mark, _, _ =>
      forall_isSound_ended (forall_isSound_opened (isSound_codeLines last sp _ _) mark)
        fun _ _ hcode => hcode.trans (List.prefix_append _ _).isInfix
  | middle :: next :: rest, sp, mark, _, _ =>
      List.forall_mem_append.mpr
        ⟨forall_isSound_opened (isSound_codeLines middle sp _ _) mark,
          isSound_furtherLines (next :: rest) sp mark _ _⟩

end

/-! ### Statements -/

lemma isStretch_statementLines (t : Tree) (p : Page) (sp before behind : Text) :
    IsStretch sp (t.statementLines p sp before behind) :=
  ((isStretch_codeLines t sp _ _).opened _ _).ended _

lemma flatMap_fragments_statementLines (t : Tree) (p : Page) (sp before behind : Text) :
    (t.statementLines p sp before behind).flatMap CodeLine.fragments = t.fragments := by
  rw [statementLines, flatMap_fragments_ended,
    flatMap_fragments_opened (isStretch_codeLines t sp _ _).ne_nil, flatMap_fragments_codeLines,
    List.nil_append]

lemma isSound_statementLines (t : Tree) (p : Page) (sp before behind : Text) :
    ∀ l ∈ t.statementLines p sp before behind, IsSound l :=
  forall_isSound_ended (forall_isSound_opened (isSound_codeLines t sp _ _) before)
    fun _ _ hcode => hcode.trans (List.prefix_append _ _).isInfix

end Fragments

end Tree

end EventScript.Layout
