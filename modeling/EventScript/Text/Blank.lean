import EventScript.Text

/-!
The characters with the Unicode property `White_Space`, and texts trimmed of them.

* `Text.isBlank`: membership in the table `Text.blanks`;
* `Text.trimStart`, `Text.trimEnd`: a text without the blanks it starts or ends with.
-/

namespace EventScript

namespace Text

/-- The code points with the property `White_Space`: the controls from tab to carriage return, the
space, the two further controls of Latin-1, and the separators. -/
def blanks : List Nat :=
  [0x9, 0xA, 0xB, 0xC, 0xD, 0x20, 0x85, 0xA0, 0x1680, 0x2000, 0x2001, 0x2002, 0x2003, 0x2004,
    0x2005, 0x2006, 0x2007, 0x2008, 0x2009, 0x200A, 0x2028, 0x2029, 0x202F, 0x205F, 0x3000]

/-- Whether a character has the property `White_Space`. -/
def isBlank (c : Char) : Bool := blanks.contains c.toNat

example : blanks.length = 25 := rfl

/-- The text without the blanks it starts with. -/
def trimStart (t : Text) : Text := t.dropWhile isBlank

/-- The text without the blanks it ends with. -/
def trimEnd (t : Text) : Text := (t.reverse.dropWhile isBlank).reverse

/-- Trimming takes away nothing but blanks in front. -/
theorem exists_append_trimStart (t : Text) :
    ∃ bs : Text, bs.all isBlank = true ∧ bs ++ trimStart t = t :=
  ⟨t.takeWhile isBlank, by simp [List.all_takeWhile], List.takeWhile_append_dropWhile⟩

/-- Trimming takes away nothing but blanks behind. -/
theorem exists_trimEnd_append (t : Text) :
    ∃ bs : Text, bs.all isBlank = true ∧ trimEnd t ++ bs = t := by
  obtain ⟨bs, hbs, h⟩ := exists_append_trimStart t.reverse
  refine ⟨bs.reverse, by simpa using hbs, ?_⟩
  have h' := congrArg List.reverse h
  rwa [List.reverse_append, List.reverse_reverse] at h'

end Text

end EventScript
