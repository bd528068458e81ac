import EventScript.Proofs.Text.Numeral
import EventScript.Statement.Control

/-!
Which texts are taken as the name of a numbered label.

A number is read from digits, and a plus sign may stand in front of them. Behind the sign nothing is
checked any more, so there the digits may begin with zeros.

* `Label.IsSigned`: names with a plus sign in them;
* `Label.number?_exact`: apart from these, only the printed names of numbered labels are taken, and
  only jumps to such texts compile to a number;
* `Label.number?_signed`: such a name.
-/

namespace EventScript

namespace Label

/-- A name with a plus sign, and zeros if there are any, in front of the numeral. -/
def IsSigned (t : Text) (n : Nat) : Prop :=
  ∃ zeros, t = 'L' :: '+' :: (List.replicate zeros '0' ++ Text.ofNat n)

/-- The number of digits is that of the numeral in them, which may have zeros in front. -/
lemma digits?_eq_some_iff {t : Text} {n : Nat} :
    digits? t = some n ↔ ∃ zeros, t = List.replicate zeros '0' ++ Text.ofNat n := by
  constructor
  · intro h
    rw [digits?] at h
    split at h
    · next hdigits =>
        obtain rfl := Option.some.inj h
        exact Text.exists_zeros_append_ofNat (List.all_eq_true.mp hdigits.2) hdigits.1
    · cases h
  · rintro ⟨zeros, rfl⟩
    have hne : List.replicate zeros '0' ++ Text.ofNat n ≠ [] :=
      List.append_ne_nil_of_right_ne_nil _ (Text.ofNat_ne_nil n)
    have hdigits : (List.replicate zeros '0' ++ Text.ofNat n).all Char.isDigit = true := by
      refine List.all_eq_true.mpr fun c hc => ?_
      rcases List.mem_append.mp hc with hc | hc
      · rw [List.eq_of_mem_replicate hc]
        rfl
      · exact Text.isDigit_of_mem_ofNat hc
    rw [digits?, if_pos ⟨hne, hdigits⟩, Text.ofDigitChars_zeros_append]

/-- Without a sign in front there are digits only. -/
lemma unsigned?_eq_digits? {t : Text} (h : ∀ u, t ≠ '+' :: u) : unsigned? t = digits? t := by
  rw [unsigned?]
  exact h

/-- The number of a printed name is read off it. -/
lemma number?_name {n : Nat} (h : n ≤ highest) : number? (name n) = some n := by
  obtain ⟨c, t, hc⟩ := List.exists_cons_of_ne_nil (Text.ofNat_ne_nil n)
  have hdigit : c.isDigit = true := Text.isDigit_of_mem_ofNat (hc ▸ List.mem_cons_self)
  have hplus : ∀ u, Text.ofNat n ≠ '+' :: u := by
    intro u hu
    rw [hc] at hu
    rw [(List.cons.inj hu).1] at hdigit
    exact absurd hdigit (by decide)
  have hzero : ¬ (1 < (Text.ofNat n).length ∧ (Text.ofNat n).head? = some '0') := by
    rintro ⟨hlength, hhead⟩
    rw [hc] at hlength hhead
    obtain rfl := Option.some.inj hhead
    rw [Text.tail_ofNat_eq_nil hc] at hlength
    exact absurd hlength (by decide)
  have hdigits : digits? (Text.ofNat n) = some n := digits?_eq_some_iff.mpr ⟨0, rfl⟩
  rw [name, number?, if_neg hzero, unsigned?_eq_digits? hplus, hdigits]
  exact Option.filter_eq_some_iff.mpr ⟨rfl, decide_eq_true h⟩

/-- The number is read behind a sign as well. -/
lemma number?_of_isSigned {t : Text} {n : Nat} (ht : IsSigned t n) (h : n ≤ highest) :
    number? t = some n := by
  obtain ⟨zeros, rfl⟩ := ht
  have hzero (u : Text) : ¬ (1 < ('+' :: u).length ∧ ('+' :: u).head? = some '0') :=
    fun hu => absurd (Option.some.inj hu.2) (by decide)
  have hdigits : digits? (List.replicate zeros '0' ++ Text.ofNat n) = some n :=
    digits?_eq_some_iff.mpr ⟨zeros, rfl⟩
  rw [number?, if_neg (hzero _), unsigned?, hdigits]
  exact Option.filter_eq_some_iff.mpr ⟨rfl, decide_eq_true h⟩

/-- Nothing else is taken: digits without a sign may not begin with further zeros. -/
lemma eq_name_or_isSigned {t : Text} {n : Nat} (h : number? t = some n) :
    n ≤ highest ∧ (t = name n ∨ IsSigned t n) := by
  rw [number?.eq_def] at h
  split at h
  · next u =>
      split at h
      · cases h
      · next hzero =>
          obtain ⟨hnumber, hle⟩ := Option.filter_eq_some_iff.mp h
          refine ⟨of_decide_eq_true hle, ?_⟩
          by_cases hplus : ∃ v, u = '+' :: v
          · obtain ⟨v, rfl⟩ := hplus
            obtain ⟨zeros, rfl⟩ := digits?_eq_some_iff.mp hnumber
            exact Or.inr ⟨zeros, rfl⟩
          · rw [unsigned?_eq_digits? (not_exists.mp hplus)] at hnumber
            obtain ⟨zeros, rfl⟩ := digits?_eq_some_iff.mp hnumber
            cases zeros with
            | zero => exact Or.inl rfl
            | succ zeros =>
                refine absurd ⟨?_, rfl⟩ hzero
                have hlength := List.length_pos_of_ne_nil (Text.ofNat_ne_nil n)
                rw [List.length_append, List.length_replicate]
                omega
  · cases h

lemma number?_eq_some_iff {t : Text} {n : Nat} :
    number? t = some n ↔ n ≤ highest ∧ (t = name n ∨ IsSigned t n) := by
  refine ⟨eq_name_or_isSigned, ?_⟩
  rintro ⟨hle, rfl | ht⟩
  · exact number?_name hle
  · exact number?_of_isSigned ht hle

/-- A printed name has no sign in it. -/
lemma plus_notMem_name (n : Nat) : '+' ∉ name n := by
  intro h
  rcases List.mem_cons.mp h with h | h
  · exact absurd h (by decide)
  · exact absurd (Text.isDigit_of_mem_ofNat h) (by decide)

lemma plus_mem_of_isSigned {t : Text} {n : Nat} (h : IsSigned t n) : '+' ∈ t := by
  obtain ⟨zeros, rfl⟩ := h
  exact List.mem_cons_of_mem _ List.mem_cons_self

/-- A jump to a label compiles to a number if the label has one. -/
lemma controlArgument?_jump {tags : Tags} {t : Text} {c : Condition} {k : Int} :
    (Statement.simple tags (.jump (.label t) c)).controlArgument? = .ok (.int k) ↔
      ∃ n : Nat, k = n ∧ number? t = some n := by
  rw [Statement.controlArgument?]
  split
  · next n hn =>
      rw [hn]
      constructor
      · intro h
        cases h
        exact ⟨n, rfl, rfl⟩
      · rintro ⟨m, rfl, hm⟩
        rw [Option.some.inj hm]
  · next hn =>
      rw [hn]
      constructor
      · intro h
        split at h <;> cases h
      · rintro ⟨m, -, hm⟩
        cases hm

/-- **Which texts are taken as names of numbered labels.** A text has the number of a label exactly
if it is the printed name of this label, or a name with a plus sign and the same number behind it.
So the printed names are all, and no two texts have one number, apart from texts with a sign. A jump
to a label compiles to a number exactly if its label has this number. -/
theorem number?_exact (t : Text) (n : Nat) (tags : Tags) (c : Condition) :
    (number? t = some n ↔ n ≤ highest ∧ (t = name n ∨ IsSigned t n)) ∧
      ((number? t = some n ↔ n ≤ highest ∧ t = name n) ↔ ¬ (n ≤ highest ∧ IsSigned t n)) ∧
      (∀ u, number? t = some n → number? u = some n → t = u ∨ IsSigned t n ∨ IsSigned u n) ∧
      ∀ k : Int, (Statement.simple tags (.jump (.label t) c)).controlArgument? = .ok (.int k) ↔
        ∃ m : Nat, k = m ∧ m ≤ highest ∧ (t = name m ∨ IsSigned t m) := by
  refine ⟨number?_eq_some_iff, ⟨?_, ?_⟩, fun u ht hu => ?_, fun k => ?_⟩
  · rintro hprinted ⟨hle, hsigned⟩
    obtain ⟨-, rfl⟩ := hprinted.mp (number?_of_isSigned hsigned hle)
    exact plus_notMem_name n (plus_mem_of_isSigned hsigned)
  · intro hplain
    rw [number?_eq_some_iff, and_or_left, or_iff_left hplain]
  · obtain ⟨-, ht⟩ := number?_eq_some_iff.mp ht
    obtain ⟨-, hu⟩ := number?_eq_some_iff.mp hu
    rcases ht with ht | ht
    · exact hu.imp (fun hu => ht.trans hu.symm) Or.inr
    · exact Or.inr (Or.inl ht)
  · simp only [controlArgument?_jump, number?_eq_some_iff]

/-- Behind a sign there may be zeros. -/
theorem number?_exact_zeros :
    number? "L+05".toList = some 5 ∧ number? (name 5) = some 5 ∧
      ("L+05".toList = name 5 ∨ IsSigned "L+05".toList 5 ∨ IsSigned (name 5) 5) := by
  have hzeros : number? "L+05".toList = some 5 := by decide
  have hname : number? (name 5) = some 5 := by decide
  obtain ⟨-, -, hapart, -⟩ := number?_exact "L+05".toList 5 {} .always
  exact ⟨hzeros, hname, hapart (name 5) hzeros hname⟩

/-- The fifth label has a second name, and jumps to it compile to the same number. -/
theorem number?_signed :
    number? "L+5".toList = some 5 ∧ number? (name 5) = some 5 ∧ "L+5".toList ≠ name 5 ∧
      (Statement.ofAction (.jump (.label "L+5".toList) .always)).controlArgument? =
        .ok (.int 5) := by
  exact ⟨by decide, by decide, by decide, by decide⟩

end Label

end EventScript
