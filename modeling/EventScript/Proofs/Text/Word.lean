import EventScript.Proofs.Text.Squeeze
import EventScript.Value

/-!
Words: names and numerals, and how they are read off the front of a text.

* `Text.isIdentifier`: the names that stand for something in a script;
* `Text.word`, `Text.afterWord`: the word at the front of a text, and what is behind it, which is
  read off a word followed by anything else (`word_append`);
* `Value.read`: the value that a word stands for, which is read off the text of an integer or of a
  parameter (`read_text`).
-/

namespace EventScript

namespace Text

/-! ### Words -/

/-- Whether a character may stand in an identifier. -/
def isNameChar (c : Char) : Bool := c.isAlphanum || c == '_'

/-- Whether a text is an identifier: letters, digits and underscores, no digit first. -/
def isIdentifier : Text → Bool
  | [] => false
  | c :: t => (c.isAlpha || c == '_') && t.all isNameChar

/-- Whether a character may stand in an identifier or a numeral. -/
def isWordChar (c : Char) : Bool := isNameChar c || c == '-'

/-- A text of such characters. -/
def IsWord (t : Text) : Prop := ∀ c ∈ t, isWordChar c = true

/-- The word at the front of a text. -/
def word (t : Text) : Text := t.takeWhile isWordChar

/-- What is behind the word at the front of a text. -/
def afterWord (t : Text) : Text := t.dropWhile isWordChar

/-- No blank stands in a word. -/
lemma isBlank_of_isWordChar {c : Char} (h : isWordChar c = true) : isBlank c = false := by
  have hblanks : ∀ n ∈ blanks, isWordChar (Char.ofNat n) = false := by decide
  by_contra hblank
  rw [Bool.not_eq_false, isBlank, List.contains_iff_mem] at hblank
  have := hblanks _ hblank
  rw [Char.ofNat_toNat, h] at this
  cases this

lemma IsWord.squeeze {t : Text} (h : IsWord t) : Text.squeeze t = t :=
  squeeze_eq_self fun c hc => isBlank_of_isWordChar (h c hc)

/-- A text that goes on with a character that is not of a word. -/
def EndsWord (t : Text) : Prop := ∃ c r, t = c :: r ∧ isWordChar c = false

/-- A word ends where a character stands that is not of a word. -/
lemma word_append {t r : Text} (h : IsWord t) (hr : EndsWord r) : word (t ++ r) = t := by
  obtain ⟨c, s, rfl, hc⟩ := hr
  rw [word, List.takeWhile_append_of_pos h, List.takeWhile_cons_of_neg (by simp [hc]),
    List.append_nil]

lemma afterWord_append {t r : Text} (h : IsWord t) (hr : EndsWord r) : afterWord (t ++ r) = r := by
  obtain ⟨c, s, rfl, hc⟩ := hr
  rw [afterWord, List.dropWhile_append_of_pos h, List.dropWhile_cons_of_neg (by simp [hc])]

/-! ### Identifiers and numerals -/

/-- No digit is a letter or an underscore. -/
lemma not_isDigit_of_isAlpha {c : Char} (h : c.isAlpha = true ∨ (c == '_') = true) :
    c.isDigit = false := by
  by_contra hdigit
  rw [Bool.not_eq_false] at hdigit
  rcases h with h | h
  · unfold Char.isAlpha Char.isUpper Char.isLower at h
    simp only [Char.isDigit, Bool.or_eq_true, Bool.and_eq_true, decide_eq_true_eq,
      UInt32.le_iff_toNat_le, ge_iff_le] at h hdigit
    have hZ : 'Z'.val.toNat = 90 := rfl
    have hA : 'A'.val.toNat = 65 := rfl
    have ha : 'a'.val.toNat = 97 := rfl
    have h9 : '9'.val.toNat = 57 := rfl
    omega
  · rw [eq_of_beq h] at hdigit
    revert hdigit
    decide

/-- An identifier begins with a letter or an underscore, and it is a word. -/
lemma exists_of_isIdentifier {t : Text} (h : isIdentifier t = true) :
    ∃ c r, t = c :: r ∧ c.isDigit = false ∧ c ≠ '-' ∧ IsWord t := by
  cases t with
  | nil => cases h
  | cons c r =>
      rw [isIdentifier, Bool.and_eq_true, Bool.or_eq_true] at h
      obtain ⟨hfirst, hrest⟩ := h
      have hname : isNameChar c = true := by
        rw [isNameChar, Char.isAlphanum, Bool.or_eq_true, Bool.or_eq_true]
        exact hfirst.imp_left Or.inl
      refine ⟨c, r, rfl, ?_, ?_, ?_⟩
      · exact not_isDigit_of_isAlpha hfirst
      · rintro rfl
        rcases hfirst with h | h <;> revert h <;> decide
      · intro d hd
        rw [isWordChar, Bool.or_eq_true]
        rcases List.mem_cons.mp hd with rfl | hd
        · exact Or.inl hname
        · exact Or.inl (List.all_eq_true.mp hrest d hd)

lemma isWord_of_isIdentifier {t : Text} (h : isIdentifier t = true) : IsWord t := by
  obtain ⟨-, -, -, -, -, hword⟩ := exists_of_isIdentifier h
  exact hword

lemma isWordChar_of_isDigit {c : Char} (h : c.isDigit = true) : isWordChar c = true := by
  simp [isWordChar, isNameChar, Char.isAlphanum, h]

lemma ofNat_injective : Function.Injective ofNat := fun m n h => by
  have hv := congrArg (fun t => Nat.ofDigitChars 10 t 0) h
  simpa [ofNat] using hv

lemma ofNat_ne_nil (n : Nat) : ofNat n ≠ [] := Nat.toDigits_ne_nil

lemma isDigit_of_mem_ofNat {n : Nat} {c : Char} (h : c ∈ ofNat n) : c.isDigit = true :=
  Nat.isDigit_of_mem_toDigits (by decide) (by decide) h

/-- The number is read off its numeral. -/
lemma ofDigitChars_ofNat (n : Nat) : Nat.ofDigitChars 10 (ofNat n) 0 = n :=
  Nat.ofDigitChars_ten_toDigits

lemma isWord_ofNat (n : Nat) : IsWord (ofNat n) := fun _ hc =>
  isWordChar_of_isDigit (isDigit_of_mem_ofNat hc)

/-- The numeral of an integer is a word, and it is not empty. -/
lemma isWord_ofInt (n : Int) : IsWord (ofInt n) ∧ ofInt n ≠ [] := by
  rw [ofInt]
  split
  · refine ⟨fun c hc => ?_, List.cons_ne_nil _ _⟩
    rcases List.mem_cons.mp hc with rfl | hc
    · rfl
    · exact isWord_ofNat _ c hc
  · exact ⟨isWord_ofNat _, ofNat_ne_nil _⟩

end Text

/-! ### Values -/

namespace Value

/-- Whether a value is an integer, or a parameter named by an identifier. -/
def isSimple : Value → Bool
  | int _ => true
  | parameter name => name.isIdentifier
  | _ => false

/-- The value that a word stands for. -/
def read : Text → Value
  | [] => parameter []
  | c :: t =>
    if c = '-' then int (-(Nat.ofDigitChars 10 t 0 : Nat))
    else if c.isDigit then int (Nat.ofDigitChars 10 (c :: t) 0 : Nat)
    else parameter (c :: t)

/-- The text of such a value is a word that is not empty. -/
lemma isWord_text {v : Value} (h : v.isSimple = true) : v.text.IsWord ∧ v.text ≠ [] := by
  cases v with
  | int n => exact Text.isWord_ofInt n
  | parameter name =>
      obtain ⟨c, r, hname, -, -, hword⟩ := Text.exists_of_isIdentifier h
      exact ⟨hword, by rw [text, hname]; exact List.cons_ne_nil _ _⟩
  | float d => cases h
  | named name v => cases h
  | expression code => cases h

lemma read_ofInt (n : Int) : read (Text.ofInt n) = int n := by
  rw [Text.ofInt]
  split
  · next hneg =>
      rw [read, if_pos rfl, Text.ofDigitChars_ofNat]
      congr 1
      omega
  · next hneg =>
      obtain ⟨c, r, hc⟩ := List.exists_cons_of_ne_nil (Text.ofNat_ne_nil n.natAbs)
      have hdigit : c.isDigit = true :=
        Text.isDigit_of_mem_ofNat (by rw [hc]; exact List.mem_cons_self)
      have hminus : c ≠ '-' := by
        rintro rfl
        exact absurd hdigit (by decide)
      rw [hc, read, if_neg hminus, if_pos hdigit, ← hc, Text.ofDigitChars_ofNat]
      congr 1
      omega

/-- **The value is read off its text.** -/
lemma read_text {v : Value} (h : v.isSimple = true) : read v.text = v := by
  cases v with
  | int n => exact read_ofInt n
  | parameter name =>
      obtain ⟨c, r, rfl, hdigit, hminus, -⟩ := Text.exists_of_isIdentifier h
      rw [text, read, if_neg hminus, if_neg (by rw [hdigit]; exact Bool.false_ne_true)]
  | float d => cases h
  | named name v => cases h
  | expression code => cases h

end Value

end EventScript
