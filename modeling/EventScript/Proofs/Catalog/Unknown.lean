import EventScript.Proofs.Catalog.Lookup
import EventScript.Proofs.Text.Numeral

/-!
The names of commands that no catalog knows.

Such a name holds the two numbers of the id with nothing between them, so the digits that the bank
ends with may be digits of the index as well.

* `CommandId.Shifts`: the front of the index of one id is at the end of the bank of another one;
* `CommandId.unknownName_eq_iff`: two ids with one name are of this kind;
* `Catalog.build_unknown`: commands with other ids have different names and printed texts;
* `Catalog.build_unknown_shifted`: two commands with one printed text.
-/

namespace EventScript

namespace CommandId

/-- A number can be taken from the front of the index of the first id and put behind its bank, which
makes it the second id. -/
def Shifts (i j : CommandId) : Prop :=
  ∃ d : Nat, 0 < d ∧ Text.ofInt j.bank = Text.ofInt i.bank ++ Text.ofNat d ∧
    Text.ofInt i.index = Text.ofNat d ++ Text.ofIntPadded j.index

variable {i j : CommandId}

/-! ### Ids of one name -/

/-- The numbers stand behind one word. -/
lemma unknownName_append (i : CommandId) : i.unknownName =
    "Unknown".toList ++ (Text.ofInt i.bank ++ Text.ofIntPadded i.index) :=
  List.append_assoc _ _ _

/-- Ids are equal or shifted where one bank goes on where the other one ends. -/
lemma eq_or_shifts_of_append {t : Text} (hbank : Text.ofInt j.bank = Text.ofInt i.bank ++ t)
    (hindex : Text.ofIntPadded i.index = t ++ Text.ofIntPadded j.index) : i = j ∨ i.Shifts j := by
  by_cases ht : t = []
  · subst ht
    rw [List.append_nil] at hbank
    have hb : i.bank = j.bank := (Text.ofInt_injective hbank).symm
    have hi : i.index = j.index := Text.ofIntPadded_injective hindex
    cases i
    cases j
    exact Or.inl (congrArg₂ CommandId.mk hb hi)
  · have hdigits := Text.isDigit_of_ofInt_append hbank
    obtain ⟨hle, -⟩ := Text.bounds_of_digits_append hdigits ht hindex
    rw [Text.ofIntPadded_of_le (by omega)] at hindex
    have hpadded : Text.ofIntPadded j.index ≠ [] :=
      List.ne_nil_of_length_pos (Nat.lt_of_lt_of_le Nat.two_pos (Text.two_le_length_ofIntPadded _))
    have hnumeral := (Text.ofInt_of_nonneg (by omega)).symm.trans hindex
    obtain ⟨d, hd, rfl⟩ := Text.exists_ofNat_of_append hnumeral ht hpadded
    exact Or.inr ⟨d, hd, hbank, hindex⟩

/-- The index of a shifted id is printed as it is. -/
lemma Shifts.ofIntPadded_index (h : i.Shifts j) :
    Text.ofIntPadded i.index = Text.ofInt i.index := by
  obtain ⟨d, -, -, hindex⟩ := h
  have hpadded := Text.two_le_length_ofIntPadded j.index
  have hpos := List.length_pos_of_ne_nil (Text.ofNat_ne_nil d)
  refine Text.ofIntPadded_of_length ?_
  rw [hindex, List.length_append]
  omega

/-- Shifted ids have one name. -/
lemma Shifts.unknownName_eq (h : i.Shifts j) : i.unknownName = j.unknownName := by
  have hindex := h.ofIntPadded_index
  obtain ⟨d, -, hbank, hd⟩ := h
  rw [unknownName_append, unknownName_append, hindex, hbank, hd, List.append_assoc]

/-- **Two ids have one name exactly if they are the same or one is the other shifted.** -/
theorem unknownName_eq_iff : i.unknownName = j.unknownName ↔ i = j ∨ i.Shifts j ∨ j.Shifts i := by
  constructor
  · intro h
    rw [unknownName_append, unknownName_append] at h
    rcases List.append_eq_append_iff.mp (List.append_cancel_left h) with
      ⟨t, hbank, hindex⟩ | ⟨t, hbank, hindex⟩
    · exact (eq_or_shifts_of_append hbank hindex).imp_right Or.inl
    · exact (eq_or_shifts_of_append hbank hindex).imp Eq.symm Or.inr
  · rintro (rfl | h | h)
    · rfl
    · exact h.unknownName_eq
    · exact h.unknownName_eq.symm

/-- The banks of shifted ids are different. -/
lemma Shifts.bank_ne (h : i.Shifts j) : i.bank ≠ j.bank := by
  obtain ⟨d, -, hbank, -⟩ := h
  intro heq
  rw [heq, List.self_eq_append_right] at hbank
  exact Text.ofNat_ne_nil d hbank

/-- Neither index of shifted ids is negative, and that of the first has at least three digits. -/
lemma Shifts.index_bounds (h : i.Shifts j) : 100 ≤ i.index ∧ 0 ≤ j.index := by
  have hprinted := h.ofIntPadded_index
  obtain ⟨d, -, hbank, hindex⟩ := h
  exact Text.bounds_of_digits_append (Text.isDigit_of_ofInt_append hbank) (Text.ofNat_ne_nil d)
    (hprinted.trans hindex)

/-! ### Printed texts -/

/-- The name of an unknown command is a word. -/
lemma isWord_unknownName (i : CommandId) : i.unknownName.IsWord := by
  have hprefix : Text.IsWord "Unknown".toList := Text.isWord_of_isIdentifier (by decide)
  intro c hc
  rw [unknownName_append] at hc
  rcases List.mem_append.mp hc with hc | hc
  · exact hprefix c hc
  · rcases List.mem_append.mp hc with hc | hc
    · exact (Text.isWord_ofInt i.bank).1 c hc
    · exact Text.isWord_ofIntPadded i.index c hc

end CommandId

/-- A name that is a word is read off the printed text of a command. -/
lemma Command.word_text {c : Command} (h : c.name.IsWord) : c.text.word = c.name := by
  rw [text, List.append_assoc, List.append_assoc]
  exact Text.word_append h ⟨'(', _, rfl, rfl⟩

namespace Catalog

/-- A command that is not in the catalog is named after its id. -/
lemma name_build_of_none {k : Catalog} {id : CommandId} (h : k.command? id = none)
    (arguments : List Value) (layers : Option Layers) :
    (k.build id arguments layers).name = id.unknownName := by
  rw [build, h]

/-- **The names of commands that a catalog does not know.** Two of them have one name exactly if
they have one id or shifted ids, and only then can they have one printed text. So names and texts
are different where two different ids have one bank, a negative index, or indexes of at most two
digits, whatever the arguments and the layers are. -/
theorem build_unknown {k : Catalog} {i j : CommandId} (hi : k.command? i = none)
    (hj : k.command? j = none) (as bs : List Value) (ls ms : Option Layers) :
    ((k.build i as ls).name = (k.build j bs ms).name ↔ i = j ∨ i.Shifts j ∨ j.Shifts i) ∧
      ((k.build i as ls).text = (k.build j bs ms).text → i = j ∨ i.Shifts j ∨ j.Shifts i) ∧
      (i ≠ j →
        i.bank = j.bank ∨ i.index < 0 ∨ j.index < 0 ∨ i.index < 100 ∧ j.index < 100 →
          (k.build i as ls).name ≠ (k.build j bs ms).name ∧
            (k.build i as ls).text ≠ (k.build j bs ms).text) := by
  have hiname := name_build_of_none hi as ls
  have hjname := name_build_of_none hj bs ms
  have hname : (k.build i as ls).name = (k.build j bs ms).name ↔
      i = j ∨ i.Shifts j ∨ j.Shifts i := by
    rw [hiname, hjname, CommandId.unknownName_eq_iff]
  have htext (h : (k.build i as ls).text = (k.build j bs ms).text) :
      (k.build i as ls).name = (k.build j bs ms).name := by
    rw [← Command.word_text (hiname ▸ i.isWord_unknownName),
      ← Command.word_text (hjname ▸ j.isWord_unknownName), h]
  refine ⟨hname, fun h => hname.mp (htext h), fun hne hapart => ?_⟩
  have hdiffer : (k.build i as ls).name ≠ (k.build j bs ms).name := by
    intro h
    rcases hname.mp h with heq | hshifts | hshifts
    · exact hne heq
    · have hbank := hshifts.bank_ne
      have hindex := hshifts.index_bounds
      omega
    · have hbank := hshifts.bank_ne
      have hindex := hshifts.index_bounds
      omega
  exact ⟨hdiffer, fun h => hdiffer (htext h)⟩

/-- A minus sign keeps the two numbers of an id apart. -/
theorem build_unknown_negative :
    (ofDocument switches).command? ⟨1, -203⟩ = none ∧
      (ofDocument switches).command? ⟨12, 3⟩ = none ∧
      ((ofDocument switches).build ⟨1, -203⟩ [] none).text ≠
        ((ofDocument switches).build ⟨12, 3⟩ [.int 1] none).text := by
  have hi : (ofDocument switches).command? ⟨1, -203⟩ = none := command?_ofDocument switches _
  have hj : (ofDocument switches).command? ⟨12, 3⟩ = none := command?_ofDocument switches _
  obtain ⟨-, -, hdiffer⟩ := build_unknown hi hj [] [.int 1] none none
  exact ⟨hi, hj, (hdiffer (by decide) (.inr (.inl (by decide)))).2⟩

/-- Two ids that a catalog does not know, and whose commands have one name and one printed text: the
two can be taken from the index to the bank. -/
theorem build_unknown_shifted :
    (ofDocument switches).command? ⟨1, 203⟩ = none ∧ (ofDocument switches).command? ⟨12, 3⟩ = none ∧
      (⟨1, 203⟩ : CommandId) ≠ ⟨12, 3⟩ ∧
      ((ofDocument switches).build ⟨1, 203⟩ [] none).name =
        ((ofDocument switches).build ⟨12, 3⟩ [] none).name ∧
      ((ofDocument switches).build ⟨1, 203⟩ [] none).text =
        ((ofDocument switches).build ⟨12, 3⟩ [] none).text := by
  have hi : (ofDocument switches).command? ⟨1, 203⟩ = none := command?_ofDocument switches _
  have hj : (ofDocument switches).command? ⟨12, 3⟩ = none := command?_ofDocument switches _
  refine ⟨hi, hj, by decide, ?_, ?_⟩
  · rw [build, hi, build, hj]
    rfl
  · rw [build, hi, build, hj]
    rfl

end Catalog

end EventScript
