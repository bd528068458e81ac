import EventScript.Proofs.Text.Word
import Mathlib.Data.Nat.Digits.Defs

/-!
Numerals and the numbers they stand for.

* `Text.exists_zeros_append_ofNat`: digits are the numeral of the number that they stand for, behind
  zeros;
* `Text.ofInt_injective`, `Text.ofIntPadded_injective`: two integers have two numerals, filled up to
  two characters or not;
* `Text.isDigit_of_mem_tail_ofInt`, `Text.two_le_length_ofIntPadded`: the shape of such numerals;
* `Text.bounds_of_digits_append`: numerals that end in another one.
-/

namespace EventScript

namespace Text

/-! ### Digits -/

/-- A digit is the numeral of the number that it stands for. -/
lemma ofNat_digit {c : Char} (h : c.isDigit = true) : ofNat (c.toNat - '0'.toNat) = [c] := by
  have hrange : 48 ≤ c.toNat ∧ c.toNat ≤ 57 := Char.isDigit_iff_toNat.mp h
  have hlt : c.toNat - 48 < 10 := by omega
  have hchar : Nat.digitChar (c.toNat - 48) = c := by
    apply Char.toNat_inj.mp
    rw [Nat.toNat_digitChar_of_lt_ten hlt]
    omega
  exact (Nat.toDigits_of_lt_base hlt).trans (congrArg (fun d => [d]) hchar)

/-- Digits behind the numeral of a positive number go on with it. -/
lemma ofNat_append_digits {t : Text} (h : ∀ c ∈ t, c.isDigit = true) :
    ∀ n : Nat, 0 < n → ofNat n ++ t = ofNat (Nat.ofDigitChars 10 t n) := by
  induction t with
  | nil => exact fun n _ => List.append_nil _
  | cons c t ih =>
      intro n hn
      rw [List.forall_mem_cons] at h
      have hrange : 48 ≤ c.toNat ∧ c.toNat ≤ 57 := Char.isDigit_iff_toNat.mp h.1
      have hlt : c.toNat - '0'.toNat < 10 := by
        have hzero : '0'.toNat = 48 := rfl
        omega
      have hnext : ofNat n ++ [c] = ofNat (10 * n + (c.toNat - '0'.toNat)) := by
        rw [← ofNat_digit h.1]
        exact Nat.toDigits_append_toDigits (by decide) hn hlt
      calc ofNat n ++ c :: t = (ofNat n ++ [c]) ++ t := by rw [List.append_assoc]; rfl
        _ = ofNat (10 * n + (c.toNat - '0'.toNat)) ++ t := by rw [hnext]
        _ = ofNat (Nat.ofDigitChars 10 (c :: t) n) := by
          rw [ih h.2 _ (by omega), Nat.ofDigitChars_cons]

/-- **Digits are zeros and the numeral** of the number that they stand for. -/
theorem exists_zeros_append_ofNat {t : Text} (h : ∀ c ∈ t, c.isDigit = true) (hne : t ≠ []) :
    ∃ zeros, t = List.replicate zeros '0' ++ ofNat (Nat.ofDigitChars 10 t 0) := by
  induction t with
  | nil => exact absurd rfl hne
  | cons c t ih =>
      rw [List.forall_mem_cons] at h
      by_cases hc : c = '0'
      · subst hc
        by_cases ht : t = []
        · exact ⟨0, by rw [ht]; rfl⟩
        · obtain ⟨zeros, hzeros⟩ := ih h.2 ht
          exact ⟨zeros + 1, congrArg ('0' :: ·) hzeros⟩
      · have hrange : 48 ≤ c.toNat := (Char.isDigit_iff_toNat.mp h.1).1
        have hpos : 0 < c.toNat - '0'.toNat := by
          have hzero : '0'.toNat = 48 := rfl
          have hneq : c.toNat ≠ 48 := fun heq => hc (Char.toNat_inj.mp heq)
          omega
        refine ⟨0, ?_⟩
        rw [Nat.ofDigitChars_cons, Nat.mul_zero, Nat.zero_add, ← ofNat_append_digits h.2 _ hpos,
          ofNat_digit h.1]
        rfl

/-- Zeros in front of a numeral change nothing about its number. -/
lemma ofDigitChars_zeros_append (zeros n : Nat) :
    Nat.ofDigitChars 10 (List.replicate zeros '0' ++ ofNat n) 0 = n := by
  rw [Nat.ofDigitChars_append, Nat.ofDigitChars_replicate_zero, Nat.mul_zero, ofDigitChars_ofNat]

/-- A numeral begins with a zero only if it is one. -/
lemma tail_ofNat_eq_nil {n : Nat} {t : Text} (h : ofNat n = '0' :: t) : t = [] := by
  by_contra ht
  have hdigits : ∀ c ∈ t, c.isDigit = true := fun c hc =>
    isDigit_of_mem_ofNat (h ▸ List.mem_cons_of_mem _ hc)
  have hvalue : Nat.ofDigitChars 10 t 0 = n := by
    have hn := ofDigitChars_ofNat n
    rwa [h, Nat.ofDigitChars_cons] at hn
  -- The digits behind the zero hold the whole numeral again, which is longer than they are.
  obtain ⟨zeros, hzeros⟩ := exists_zeros_append_ofNat hdigits ht
  have hlength := congrArg List.length hzeros
  rw [hvalue, h, List.length_append, List.length_cons] at hlength
  omega

/-- Digits in front of a numeral, with something left behind them, are the numeral of a positive
number. -/
lemma exists_ofNat_of_append {n : Nat} {t r : Text} (h : ofNat n = t ++ r) (ht : t ≠ [])
    (hr : r ≠ []) : ∃ d, 0 < d ∧ t = ofNat d := by
  have hdigits : ∀ c ∈ t, c.isDigit = true := fun c hc =>
    isDigit_of_mem_ofNat (h ▸ List.mem_append_left r hc)
  -- A zero in front would be all of the numeral, and nothing could be left behind it.
  have hzero : ∀ u, t ≠ '0' :: u := by
    rintro u rfl
    exact hr (List.append_eq_nil_iff.mp (tail_ofNat_eq_nil h)).2
  obtain ⟨zeros, hzeros⟩ := exists_zeros_append_ofNat hdigits ht
  generalize Nat.ofDigitChars 10 t 0 = d at hzeros
  cases zeros with
  | succ zeros => exact absurd hzeros (hzero _)
  | zero =>
      refine ⟨d, Nat.pos_of_ne_zero ?_, hzeros⟩
      rintro rfl
      exact hzero [] hzeros

/-! ### Integers -/

lemma ofInt_injective : Function.Injective ofInt := fun m n h => by
  have hread := Value.read_ofInt m
  rw [h, Value.read_ofInt] at hread
  exact (Value.int.inj hread).symm

lemma ofInt_of_nonneg {n : Int} (h : 0 ≤ n) : ofInt n = ofNat n.natAbs :=
  if_neg (Int.not_lt.mpr h)

lemma ofInt_of_neg {n : Int} (h : n < 0) : ofInt n = '-' :: ofNat n.natAbs := if_pos h

/-- A minus sign stands in front of a numeral only. -/
lemma isDigit_of_mem_tail_ofInt {n : Int} {c : Char} (h : c ∈ (ofInt n).tail) :
    c.isDigit = true := by
  rcases Int.lt_or_le n 0 with hn | hn
  · rw [ofInt_of_neg hn] at h
    exact isDigit_of_mem_ofNat h
  · rw [ofInt_of_nonneg hn] at h
    exact isDigit_of_mem_ofNat (List.mem_of_mem_tail h)

/-- What a numeral adds to another one consists of digits. -/
lemma isDigit_of_ofInt_append {m n : Int} {t : Text} (h : ofInt n = ofInt m ++ t) :
    ∀ c ∈ t, c.isDigit = true := by
  intro c hc
  refine isDigit_of_mem_tail_ofInt (n := n) ?_
  rw [h, List.tail_append_of_ne_nil (isWord_ofInt m).2]
  exact List.mem_append_right _ hc

lemma ofIntPadded_of_lt {n : Int} (h : 0 ≤ n) (hlt : n < 10) : ofIntPadded n = '0' :: ofInt n :=
  if_pos ⟨h, hlt⟩

lemma ofIntPadded_of_le {n : Int} (h : 10 ≤ n) : ofIntPadded n = ofInt n :=
  if_neg fun hn => absurd hn.2 (Int.not_lt.mpr h)

lemma ofIntPadded_of_neg {n : Int} (h : n < 0) : ofIntPadded n = ofInt n :=
  if_neg fun hn => absurd hn.1 (Int.not_le.mpr h)

/-- The zero that a numeral is filled up with changes nothing about its value. -/
lemma read_ofIntPadded (n : Int) : Value.read (ofIntPadded n) = .int n := by
  rw [ofIntPadded]
  split
  · next hn =>
      have hminus : ('0' : Char) ≠ '-' := by decide
      have hvalue := ofDigitChars_zeros_append 1 n.natAbs
      have hdigit : ('0' : Char).isDigit = true := rfl
      rw [ofInt_of_nonneg hn.1, Value.read, if_neg hminus, if_pos hdigit]
      refine congrArg Value.int ?_
      rw [List.replicate_one, List.singleton_append] at hvalue
      rw [hvalue]
      omega
  · exact Value.read_ofInt n

lemma ofIntPadded_injective : Function.Injective ofIntPadded := fun m n h => by
  have hread := read_ofIntPadded m
  rw [h, read_ofIntPadded] at hread
  exact (Value.int.inj hread).symm

/-- A filled up numeral is a word. -/
lemma isWord_ofIntPadded (n : Int) : IsWord (ofIntPadded n) := by
  rw [ofIntPadded]
  split
  · exact fun c hc => (List.mem_cons.mp hc).elim (fun h => h ▸ rfl) ((isWord_ofInt n).1 c)
  · exact (isWord_ofInt n).1

/-- The numeral of a number that is not negative consists of digits. -/
lemma isDigit_of_mem_ofIntPadded {n : Int} (h : 0 ≤ n) {c : Char} (hc : c ∈ ofIntPadded n) :
    c.isDigit = true := by
  rw [ofIntPadded, ofInt_of_nonneg h] at hc
  split at hc
  · rcases List.mem_cons.mp hc with rfl | hc
    · rfl
    · exact isDigit_of_mem_ofNat hc
  · exact isDigit_of_mem_ofNat hc

/-- A number whose numeral consists of digits is not negative. -/
lemma nonneg_of_forall_isDigit {n : Int} (h : ∀ c ∈ ofIntPadded n, c.isDigit = true) : 0 ≤ n := by
  by_contra hn
  rw [Int.not_le] at hn
  have hminus := h '-' (by rw [ofIntPadded_of_neg hn, ofInt_of_neg hn]; exact List.mem_cons_self)
  exact absurd hminus (by decide)

/-- A numeral is filled up to two characters. -/
lemma two_le_length_ofIntPadded (n : Int) : 2 ≤ (ofIntPadded n).length := by
  have hne := List.length_pos_of_ne_nil (ofNat_ne_nil n.natAbs)
  rcases Int.lt_or_le n 0 with hn | hn
  · rw [ofIntPadded_of_neg hn, ofInt_of_neg hn, List.length_cons]
    omega
  · rcases Int.lt_or_le n 10 with hlt | hle
    · rw [ofIntPadded_of_lt hn hlt, ofInt_of_nonneg hn, List.length_cons]
      omega
    · rw [ofIntPadded_of_le hle, ofInt_of_nonneg hn]
      by_contra hlength
      obtain ⟨c, hc⟩ : ∃ c, ofNat n.natAbs = [c] := List.length_eq_one_iff.mp (by omega)
      have hdigit : c.isDigit = true :=
        isDigit_of_mem_ofNat (n := n.natAbs) (by rw [hc]; exact List.mem_cons_self)
      have hrange : 48 ≤ c.toNat ∧ c.toNat ≤ 57 := Char.isDigit_iff_toNat.mp hdigit
      have hvalue : c.toNat - 48 = n.natAbs :=
        ofNat_injective ((ofNat_digit hdigit).trans hc.symm)
      omega

/-- A numeral is not filled up further than to two characters. -/
lemma length_ofIntPadded_le {n : Int} (h : 0 ≤ n) (hlt : n < 100) :
    (ofIntPadded n).length ≤ 2 := by
  rcases Int.lt_or_le n 10 with hlt' | hle
  · have hlength := Nat.toDigits_length 10 n.natAbs 1 (by decide) (by omega)
    rw [ofIntPadded_of_lt h hlt', ofInt_of_nonneg h, List.length_cons]
    exact Nat.succ_le_succ hlength
  · rw [ofIntPadded_of_le hle, ofInt_of_nonneg h]
    exact Nat.toDigits_length 10 n.natAbs 2 (by decide) (by omega)

/-- A numeral of more than two characters is not filled up. -/
lemma ofIntPadded_of_length {n : Int} (h : 2 < (ofInt n).length) : ofIntPadded n = ofInt n := by
  refine if_neg fun hn => ?_
  have hlength := length_ofIntPadded_le hn.1 (by omega)
  rw [ofIntPadded_of_lt hn.1 hn.2, List.length_cons] at hlength
  omega

/-- Digits in front of a filled up numeral make one of three digits or more, and there is no sign
between them and the others. -/
lemma bounds_of_digits_append {m n : Int} {t : Text} (hdigits : ∀ c ∈ t, c.isDigit = true)
    (ht : t ≠ []) (h : ofIntPadded m = t ++ ofIntPadded n) : 100 ≤ m ∧ 0 ≤ n := by
  have hm : 0 ≤ m := by
    by_contra hm
    rw [Int.not_le] at hm
    obtain ⟨c, u, rfl⟩ := List.exists_cons_of_ne_nil ht
    rw [ofIntPadded_of_neg hm, ofInt_of_neg hm] at h
    have hminus := hdigits c List.mem_cons_self
    rw [← (List.cons.inj h).1] at hminus
    exact absurd hminus (by decide)
  constructor
  · by_contra hlt
    rw [Int.not_le] at hlt
    have hlength := length_ofIntPadded_le hm hlt
    have hpadded := two_le_length_ofIntPadded n
    have hpos := List.length_pos_of_ne_nil ht
    rw [h, List.length_append] at hlength
    omega
  · refine nonneg_of_forall_isDigit fun c hc => ?_
    exact isDigit_of_mem_ofIntPadded hm (h ▸ List.mem_append_right t hc)

end Text

end EventScript
