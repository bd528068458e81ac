import EventScript.Label
import EventScript.Proofs.Text.Word
import Mathlib.Data.Finset.Card
import Mathlib.Data.List.Nodup
import Mathlib.Order.Interval.Finset.Nat
import Mathlib.Tactic.Common

/-!
New label names: the search for one always succeeds.

A name is tried until it is neither in use nor the name of a numbered label. `Label.candidates` is
long enough for that, by two counts.

* `Label.le_of_number?_append`: a numeral behind a base can name a numbered label only up to
  `Label.highest`, whatever the base, since the digits of the base only raise the number;
* `Label.candidate_injective`: the names behind a base are pairwise distinct;
* `Label.exists_free_number`: those past the bound are more than the names in use, so one of them
  is free;
* `Label.isFree_fresh`: hence the first free candidate exists, and it is what `Label.fresh` gives.
-/

namespace EventScript

namespace Label

/-! ### Numbers behind a base -/

/-- Digits in front only raise the number that a numeral stands for. -/
lemma le_ofDigitChars_append (t : Text) (m : Nat) :
    m ≤ Nat.ofDigitChars 10 (t ++ Text.ofNat m) 0 := by
  rw [Nat.ofDigitChars_append, Nat.ofDigitChars_eq_ofDigitChars_zero, Text.ofNat,
    Nat.ofDigitChars_ten_toDigits]
  exact Nat.le_add_left _ _

lemma le_of_digits?_append {t : Text} {m v : Nat} (h : digits? (t ++ Text.ofNat m) = some v) :
    m ≤ v := by
  rw [digits?] at h
  split at h
  · obtain rfl := Option.some.inj h
    exact le_ofDigitChars_append t m
  · cases h

/-- A sign in front of the digits changes nothing about that. -/
lemma le_of_unsigned?_append {t : Text} {m v : Nat} (h : unsigned? (t ++ Text.ofNat m) = some v) :
    m ≤ v := by
  cases t with
  | nil =>
      obtain ⟨c, r, hc⟩ := List.exists_cons_of_ne_nil (Text.ofNat_ne_nil m)
      have hd : c.isDigit = true := Text.isDigit_of_mem_ofNat (hc ▸ List.mem_cons_self)
      have hplus : c ≠ '+' := by rintro rfl; exact absurd hd (by decide)
      have hu : unsigned? (c :: r) = digits? (c :: r) := by
        rw [unsigned?]
        intro t ht
        exact hplus (List.cons.inj ht).1
      rw [List.nil_append, hc, hu, ← hc] at h
      exact le_of_digits?_append (t := []) h
  | cons c t =>
      by_cases hplus : c = '+'
      · subst hplus
        exact le_of_digits?_append h
      · have hu : unsigned? (c :: t ++ Text.ofNat m) = digits? (c :: t ++ Text.ofNat m) := by
          rw [List.cons_append, unsigned?]
          intro r hr
          exact hplus (List.cons.inj hr).1
        rw [hu] at h
        exact le_of_digits?_append h

lemma le_highest_of_number? {t : Text} {n : Nat} (h : number? t = some n) : n ≤ highest := by
  rw [number?.eq_def] at h
  split at h
  · split at h
    · cases h
    · have hf := (Option.filter_eq_some_iff.mp h).2
      exact of_decide_eq_true hf
  · cases h

lemma le_of_number?_append {base : Text} {m n : Nat} (h : number? (base ++ Text.ofNat m) = some n) :
    m ≤ n := by
  cases base with
  | nil =>
      obtain ⟨c, r, hc⟩ := List.exists_cons_of_ne_nil (Text.ofNat_ne_nil m)
      have hd : c.isDigit = true := Text.isDigit_of_mem_ofNat (hc ▸ List.mem_cons_self)
      have hL : c ≠ 'L' := by rintro rfl; exact absurd hd (by decide)
      rw [List.nil_append, hc, number?.eq_def] at h
      split at h
      · next heq => exact absurd (List.cons.inj heq).1 hL
      · cases h
  | cons c base =>
      rw [number?.eq_def] at h
      split at h
      · next heq =>
          split at h
          · cases h
          · have hu := (Option.filter_eq_some_iff.mp h).1
            rw [← (List.cons.inj heq).2] at hu
            exact le_of_unsigned?_append hu
      · cases h

/-- Past `highest`, a base with a number behind it is the name of no numbered label. -/
lemma number?_candidate_eq_none (base : Text) {m : Nat} (hm : highest < m) :
    number? (candidate base m) = none := by
  by_contra hne
  obtain ⟨n, hn⟩ := Option.ne_none_iff_exists'.mp hne
  have hle := le_of_number?_append hn
  have hhigh := le_highest_of_number? hn
  omega

/-- The names behind one base are pairwise distinct. -/
lemma candidate_injective (base : Text) : Function.Injective (candidate base) := fun _ _ h =>
  Text.ofNat_injective (List.append_cancel_left h)

/-- Past `highest`, only a name in use can be in the way. -/
lemma mem_of_isFree_candidate_eq_false {used : List Text} {base : Text} {m : Nat} (hm : highest < m)
    (h : isFree used (candidate base m) = false) : candidate base m ∈ used := by
  rw [isFree, number?_candidate_eq_none base hm] at h
  simpa using h

/-! ### The search -/

/-- **The pigeonhole**: past `highest`, one more name is tried than there are names in use. -/
lemma exists_free_number (used : List Text) (base : Text) :
    ∃ n, 1 ≤ n ∧ n ≤ used.toFinset.card + highest + 1 ∧
      isFree used (candidate base n) = true := by
  by_contra hnone
  push Not at hnone
  have hused : (Finset.Ioc highest (used.toFinset.card + highest + 1)).image (candidate base) ⊆
      used.toFinset := by
    intro name hname
    obtain ⟨m, hm, rfl⟩ := Finset.mem_image.mp hname
    obtain ⟨hlow, hhigh⟩ := Finset.mem_Ioc.mp hm
    have hfree := hnone m (by omega) hhigh
    rw [ne_eq, Bool.not_eq_true] at hfree
    exact List.mem_toFinset.mpr (mem_of_isFree_candidate_eq_false hlow hfree)
  have hle := Finset.card_le_card hused
  rw [Finset.card_image_of_injective _ (candidate_injective base), Nat.card_Ioc] at hle
  omega

/-- Among the candidates is one that is free. -/
lemma exists_free_candidate (used : List Text) (base : Text) :
    ∃ name ∈ candidates used base, isFree used name = true := by
  obtain ⟨n, hpos, hle, hfree⟩ := exists_free_number used base
  have hcard := used.toFinset_card_le
  refine ⟨candidate base n, List.mem_cons_of_mem _ (List.mem_map.mpr ⟨n - 1, ?_, ?_⟩), hfree⟩
  · exact List.mem_range.mpr (by omega)
  · rw [Nat.sub_add_cancel hpos]

/-- **The fallback is never taken**: the search finds the name that is given. -/
lemma find?_candidates (used : List Text) (base : Text) :
    (candidates used base).find? (isFree used) = some (fresh used base) := by
  obtain ⟨name, hmem, hfree⟩ := exists_free_candidate used base
  have hsome := List.find?_isSome.mpr ⟨name, hmem, hfree⟩
  obtain ⟨first, hfirst⟩ := Option.isSome_iff_exists.mp hsome
  rw [fresh, hfirst, Option.getD_some]

/-- **The new name is free**: it is not in use, and no numbered label has it. -/
theorem isFree_fresh (used : List Text) (base : Text) : isFree used (fresh used base) = true :=
  List.find?_some (find?_candidates used base)

lemma notMem_of_isFree {used : List Text} {x : Text} (h : isFree used x = true) : x ∉ used := by
  rw [isFree, Bool.and_eq_true] at h
  simpa using h.1

/-- What is free among more names is free among fewer. -/
lemma isFree_mono {used more : List Text} (h : ∀ x ∈ used, x ∈ more) {x : Text}
    (hx : isFree more x = true) : isFree used x = true := by
  rw [isFree, Bool.and_eq_true] at hx ⊢
  refine ⟨?_, hx.2⟩
  have hnot : x ∉ more := by simpa using hx.1
  simpa using fun hmem => hnot (h x hmem)

lemma fresh_notMem (used : List Text) (base : Text) : fresh used base ∉ used :=
  notMem_of_isFree (isFree_fresh used base)

end Label

end EventScript
