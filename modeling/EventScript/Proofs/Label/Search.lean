import EventScript.Proofs.Label.Fresh
import EventScript.Proofs.Label.Spelling
import EventScript.Statement.Labels
import Mathlib.Algebra.Group.Nat.Defs

/-!
Where the search for a new label name ends.

The candidates behind a base are counted up from one. Listing as many of them as are needed gives
the name at which counting without a bound would end.

* `Label.EndsAt`: counting without a bound ends at a number, which is not far away (`EndsAt.le`);
* `Label.freshSearch_ends`: the name that is found, and the names in use behind it.
-/

namespace EventScript

namespace Label

/-- A free name is that of no numbered label. -/
lemma number?_of_isFree {used : List Text} {x : Text} (h : isFree used x = true) :
    number? x = none := by
  rw [isFree, Bool.and_eq_true] at h
  simpa using h.2

lemma ne_name_of_isFree {used : List Text} {x : Text} (h : isFree used x = true) {n : Nat}
    (hn : n ≤ highest) : x ≠ name n := by
  rintro rfl
  have hnone := number?_of_isFree h
  rw [number?_name hn] at hnone
  cases hnone

/-- A search that counts up from one behind a base ends at a number. -/
structure EndsAt (used : List Text) (base : Text) (n : Nat) : Prop where
  pos : 1 ≤ n
  found : isFree used (candidate base n) = true
  first : ∀ m, 1 ≤ m → m < n → isFree used (candidate base m) = false

/-- Counting up from one ends soon: past `highest`, each name in use holds it up once at most. -/
lemma EndsAt.le {used : List Text} {base : Text} {n : Nat} (h : EndsAt used base n) :
    n ≤ used.toFinset.card + highest + 1 := by
  obtain ⟨m, hpos, hle, hfree⟩ := exists_free_number used base
  by_contra hlt
  rw [h.first m hpos (by omega)] at hfree
  cases hfree

/-- A base that is not free is followed by the number at which counting up from one ends. -/
lemma exists_endsAt {used : List Text} {base : Text} (h : isFree used base = false) :
    ∃ n, EndsAt used base n ∧ fresh used base = candidate base n := by
  have hfound := find?_candidates used base
  rw [candidates, List.find?_cons_of_neg (Bool.eq_false_iff.mp h), List.find?_map] at hfound
  obtain ⟨i, hi, hname⟩ := Option.map_eq_some_iff.mp hfound
  obtain ⟨hfree, -, hfirst⟩ := List.find?_range_eq_some.mp hi
  refine ⟨i + 1, ⟨Nat.le_add_left 1 i, hfree, fun m hpos hlt => ?_⟩, hname.symm⟩
  have hbefore := hfirst (m - 1) (by omega)
  rwa [Function.comp_apply, Nat.sub_add_cancel hpos, Bool.not_eq_true'] at hbefore

/-- **The search for a new name ends with one.** Unless the base itself is free, counting up from
one meets a free candidate before the numbers take more than 31 bits, so nothing has to be fallen
back on. The name that is found begins with the base, is not in use and is no name of a numbered
label, and it is all that comes to the names in use when a statement is given it. -/
theorem freshSearch_ends {used : List Text} (h : used.toFinset.card < 2 ^ 31 - 32) (base : Text) :
    (candidates used base).find? (isFree used) = some (fresh used base) ∧
      (isFree used base = true ∧ fresh used base = base ∨
        isFree used base = false ∧
          ∃ n, n + 1 < 2 ^ 31 ∧ EndsAt used base n ∧ fresh used base = candidate base n) ∧
      fresh used base ∉ used ∧
      (number? (fresh used base) = none ∧ ∀ n ≤ highest, fresh used base ≠ name n) ∧
      base <+: fresh used base ∧
      ∀ (s : Statement) (fallback : Text), s.tags.labels = [] →
        s.tags.labelHint.getD fallback = base →
          ∃ after, (s.bearLabel fallback used).2 = (fresh used base, after) ∧
            ∀ x, x ∈ after ↔ x = fresh used base ∨ x ∈ used := by
  have hfound := find?_candidates used base
  have hfree := isFree_fresh used base
  refine ⟨hfound, ?_, fresh_notMem used base,
    ⟨number?_of_isFree hfree, fun _ => ne_name_of_isFree hfree⟩, ?_, ?_⟩
  · cases hbase : isFree used base with
    | true =>
        rw [candidates, List.find?_cons_of_pos hbase] at hfound
        exact Or.inl ⟨rfl, (Option.some.inj hfound).symm⟩
    | false =>
        obtain ⟨n, hends, hname⟩ := exists_endsAt hbase
        have hle := hends.le
        have hhighest : highest = 20 := rfl
        exact Or.inr ⟨rfl, n, by omega, hends, hname⟩
  · rcases List.mem_cons.mp (List.mem_of_find?_eq_some hfound) with hname | hname
    · rw [hname]
    · obtain ⟨n, -, hname⟩ := List.mem_map.mp hname
      rw [← hname]
      exact List.prefix_append _ _
  · rintro s fallback hlabels rfl
    refine ⟨_, ?_, fun x => List.mem_cons⟩
    rw [Statement.bearLabel, hlabels]

/-- Names in use that stand in the way of a new one, behind the numbered labels. -/
def crowdedNames : List Text := ["L".toList, "L21".toList, "L23".toList]

/-- Behind the base of the numbered labels, the first free number is twenty-two. -/
theorem freshSearch_ends_crowded :
    crowdedNames.toFinset.card < 2 ^ 31 - 32 ∧ fresh crowdedNames "L".toList = "L22".toList ∧
      (∃ n, n + 1 < 2 ^ 31 ∧ EndsAt crowdedNames "L".toList n ∧
        "L22".toList = candidate "L".toList n) ∧
      "L22".toList ∉ crowdedNames ∧
      (number? "L22".toList = none ∧ ∀ n ≤ highest, "L22".toList ≠ name n) ∧
      ∃ after, ((Statement.ofAction .noOp).bearLabel "L".toList crowdedNames).2 =
          ("L22".toList, after) ∧ ∀ x, x ∈ after ↔ x = "L22".toList ∨ x ∈ crowdedNames := by
  have hcard : crowdedNames.toFinset.card < 2 ^ 31 - 32 := by decide
  have hname : fresh crowdedNames "L".toList = "L22".toList := by decide
  obtain ⟨-, hends, hnew, hunnumbered, -, hborne⟩ := freshSearch_ends hcard "L".toList
  rw [hname] at hends hnew hunnumbered hborne
  have hnumber := (hends.resolve_left fun hfree => absurd hfree.2 (by decide)).2
  exact ⟨hcard, hname, hnumber, hnew, hunnumbered, hborne _ _ rfl rfl⟩

end Label

end EventScript
