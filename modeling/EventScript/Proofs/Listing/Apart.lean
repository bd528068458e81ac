import EventScript.Listing.Basic
import Mathlib.Data.List.Forall2
import Mathlib.Data.List.Induction
import Mathlib.Data.List.Nodup
import Mathlib.Data.List.Perm.Subperm
import Mathlib.Data.Nat.Find
import Mathlib.Tactic.Common

/-!
Names told apart.

Names are told apart in their order: one that is taken is put on as few underscores as make it new.
A name may be taken by an earlier one with underscores, which was put on them because it was taken
itself, and so on.

* `Listing.exists_newName`: what the new name of a name is;
* `Listing.newNames`: names told apart. They are pairwise distinct (`nodup_newNames`), each is the
  old one with underscores (`forall₂_newNames`), and no old name is lost (`mem_newNames_of_mem`);
* `Listing.IsCrowded`: for some number of names in a row, a name with underscores and those with
  fewer of them, there are at least as many names to be told apart that are one of them. Exactly
  then the last one in the row is taken (`mem_newNames_iff`).
-/

namespace EventScript

namespace Listing

/-! ### The name with fewest underscores -/

lemma leastMissing_spec (ns : List Nat) :
    leastMissing ns ∉ ns ∧ ∀ n < leastMissing ns, n ∈ ns := by
  rw [leastMissing]
  cases hfind : (List.range ns.length).find? fun n => !ns.contains n with
  | some m =>
      obtain ⟨hm, -, hleast⟩ := List.find?_range_eq_some.mp hfind
      exact ⟨by simpa using hm, fun n hn => by simpa using hleast n hn⟩
  | none =>
      have hall : ∀ n < ns.length, n ∈ ns := by simpa using hfind
      refine ⟨fun hmem => ?_, hall⟩
      -- else there were more numbers in the list than it is long
      have hsub : List.range (ns.length + 1) ⊆ ns := by
        intro n hn
        rcases Nat.lt_succ_iff_lt_or_eq.mp (List.mem_range.mp hn) with hlt | rfl
        · exact hall n hlt
        · exact hmem
      have hlength := (List.subperm_of_subset List.nodup_range hsub).length_le
      rw [List.length_range] at hlength
      omega

@[simp] lemma underscored_zero (name : Text) : underscored name 0 = name := List.append_nil name

lemma underscored_add (name : Text) (m n : Nat) :
    underscored name (m + n) = underscored (underscored name m) n := by
  rw [underscored, underscored, underscored, List.replicate_add, List.append_assoc]

lemma underscored_inj {name : Text} {m n : Nat} (h : underscored name m = underscored name n) :
    m = n := by
  have hlength := congrArg List.length h
  simpa [underscored] using hlength

/-- Two names that end alike begin alike. -/
lemma eq_of_underscored_eq {a b : Text} {m n : Nat} (h : underscored a (m + n) = underscored b n) :
    underscored a m = b := by
  rw [underscored_add] at h
  exact List.append_cancel_right h

/-- **The new name of a name** is the name with underscores, is not taken, and is the first such
one. -/
lemma exists_newName (used : List Text) (name : Text) :
    ∃ n, newName used name = underscored name n ∧ underscored name n ∉ used ∧
      ∀ m < n, underscored name m ∈ used := by
  have hmem : ∀ n, n ∈ used.filterMap (underscores? name) ↔ underscored name n ∈ used := by
    intro n
    simp [underscores?_eq_some_iff]
  obtain ⟨hnot, hall⟩ := leastMissing_spec (used.filterMap (underscores? name))
  exact ⟨_, rfl, fun h => hnot ((hmem _).mpr h), fun m hm => (hmem m).mp (hall m hm)⟩

/-- A free name stays as it is. -/
lemma newName_of_notMem {used : List Text} {name : Text} (h : name ∉ used) :
    newName used name = name := by
  obtain ⟨n, hn, -, hall⟩ := exists_newName used name
  cases n with
  | zero => rw [hn, underscored_zero]
  | succ n =>
      have hzero := hall 0 (Nat.zero_lt_succ n)
      rw [underscored_zero] at hzero
      exact absurd hzero h

/-- Which names are taken is all that counts. -/
lemma newName_congr {used used' : List Text} (h : ∀ x, x ∈ used ↔ x ∈ used') (name : Text) :
    newName used name = newName used' name := by
  obtain ⟨m, hm, hnot, hall⟩ := exists_newName used name
  obtain ⟨n, hn, hnot', hall'⟩ := exists_newName used' name
  rw [hm, hn]
  rcases Nat.lt_trichotomy m n with hlt | rfl | hlt
  · exact absurd ((h _).mpr (hall' m hlt)) hnot
  · rfl
  · exact absurd ((h _).mp (hall n hlt)) hnot'

/-! ### Names one after the other -/

/-- The names under which names are declared one after the other, when those in `used` are taken. -/
def newNames (used : List Text) : List Text → List Text
  | [] => []
  | name :: rest => newName used name :: newNames (newName used name :: used) rest

variable {used names : List Text}

/-- Further names are told apart from all new ones. -/
lemma newNames_append (used names further : List Text) : newNames used (names ++ further) =
    newNames used names ++ newNames ((newNames used names).reverse ++ used) further := by
  induction names generalizing used with
  | nil => rfl
  | cons name rest ih =>
      rw [List.cons_append, newNames, newNames, ih, List.cons_append, List.reverse_cons,
        List.append_assoc, List.singleton_append]

lemma newNames_concat (names : List Text) (name : Text) :
    newNames [] (names ++ [name]) = newNames [] names ++ [newName (newNames [] names) name] := by
  have hcongr : newName ((newNames [] names).reverse ++ []) name =
      newName (newNames [] names) name :=
    newName_congr (fun x => by rw [List.append_nil, List.mem_reverse]) name
  rw [newNames_append, newNames, newNames, hcongr]

/-- No new name was taken. -/
lemma notMem_of_mem_newNames {x : Text} (h : x ∈ newNames used names) : x ∉ used := by
  induction names generalizing used with
  | nil => cases h
  | cons name rest ih =>
      obtain ⟨n, hn, hnot, -⟩ := exists_newName used name
      rcases List.mem_cons.mp h with rfl | hrest
      · rwa [hn]
      · exact fun hx => ih hrest (List.mem_cons_of_mem _ hx)

/-- **New names are pairwise distinct.** -/
theorem nodup_newNames (used names : List Text) : (newNames used names).Nodup := by
  induction names generalizing used with
  | nil => exact List.nodup_nil
  | cons name rest ih =>
      refine List.nodup_cons.mpr ⟨fun h => ?_, ih _⟩
      exact notMem_of_mem_newNames h List.mem_cons_self

/-- **New names are the old ones with underscores**, one for one. -/
theorem forall₂_newNames (used names : List Text) :
    List.Forall₂ (fun name new => ∃ n, new = underscored name n) names (newNames used names) := by
  induction names generalizing used with
  | nil => exact .nil
  | cons name rest ih =>
      obtain ⟨n, hn, -⟩ := exists_newName used name
      exact .cons ⟨n, hn⟩ (ih _)

/-- **No name is lost**: if it was not taken, it is one of the new ones. -/
theorem mem_newNames_of_mem {name : Text} (h : name ∈ names) (hfree : name ∉ used) :
    name ∈ newNames used names := by
  induction names generalizing used with
  | nil => cases h
  | cons first rest ih =>
      rw [newNames, List.mem_cons]
      by_cases hfirst : name = newName used first
      · exact Or.inl hfirst
      · right
        have hrest : name ∈ rest := by
          rcases List.mem_cons.mp h with rfl | hrest
          · exact absurd (newName_of_notMem hfree).symm hfirst
          · exact hrest
        refine ih hrest fun hmem => ?_
        rcases List.mem_cons.mp hmem with heq | hmem
        · exact hfirst heq
        · exact hfree hmem

/-! ### Rows of names -/

/-- Whether a name is one of the `n` names in a row that begins with `name`, each with an underscore
more. -/
def isInRow (name : Text) (n : Nat) (x : Text) : Bool := (underscores? name x).any (· < n)

/-- How many of some names stand in a row. -/
def countInRow (name : Text) (n : Nat) (names : List Text) : Nat := names.countP (isInRow name n)

/-- The row that ends with `name` is crowded: it is not longer than the number of names in it. -/
def IsCrowded (names : List Text) (name : Text) : Prop :=
  ∃ first n, name = underscored first n ∧ n < countInRow first (n + 1) names

lemma isInRow_iff {name x : Text} {n : Nat} :
    isInRow name n x = true ↔ ∃ k < n, x = underscored name k := by
  simp [isInRow, Option.any_eq_true, underscores?_eq_some_iff, and_comm]

lemma countInRow_concat (first name : Text) (n : Nat) (names : List Text) :
    countInRow first n (names ++ [name]) =
      countInRow first n names + if isInRow first n name then 1 else 0 := by
  rw [countInRow, List.countP_append, List.countP_singleton, countInRow]

/-- A row is a row and another one behind it. -/
lemma isInRow_add (name : Text) (m n : Nat) (x : Text) :
    isInRow name (m + n) x = (isInRow name m x || isInRow (underscored name m) n x) := by
  rw [Bool.eq_iff_iff, Bool.or_eq_true, isInRow_iff, isInRow_iff, isInRow_iff]
  constructor
  · rintro ⟨k, hk, rfl⟩
    rcases Nat.lt_or_ge k m with hlt | hge
    · exact Or.inl ⟨k, hlt, rfl⟩
    · refine Or.inr ⟨k - m, by omega, ?_⟩
      rw [← underscored_add, Nat.add_sub_cancel' hge]
  · rintro (⟨k, hk, rfl⟩ | ⟨k, hk, rfl⟩)
    · exact ⟨k, by omega, rfl⟩
    · exact ⟨m + k, by omega, (underscored_add name m k).symm⟩

/-- No name is both in a row and in another one behind it. -/
lemma isInRow_eq_false {name x : Text} {m : Nat} (h : isInRow name m x = true) (n : Nat) :
    isInRow (underscored name m) n x = false := by
  obtain ⟨k, hk, rfl⟩ := isInRow_iff.mp h
  rw [Bool.eq_false_iff]
  intro hbehind
  obtain ⟨l, -, hl⟩ := isInRow_iff.mp hbehind
  rw [← underscored_add] at hl
  have := underscored_inj hl
  omega

lemma countInRow_add (name : Text) (m n : Nat) (names : List Text) :
    countInRow name (m + n) names =
      countInRow name m names + countInRow (underscored name m) n names := by
  induction names with
  | nil => rfl
  | cons x names ih =>
      rw [countInRow, countInRow, countInRow] at ih ⊢
      rw [List.countP_cons, List.countP_cons, List.countP_cons, ih, isInRow_add]
      cases hfront : isInRow name m x with
      | false => rw [Bool.false_or, if_neg Bool.false_ne_true, Nat.add_zero, Nat.add_assoc]
      | true =>
          rw [isInRow_eq_false hfront n, Bool.true_or, if_pos rfl, if_neg Bool.false_ne_true]
          omega

/-- If all names of a row are crowded, the row belongs to one that is full: it may begin in front of
it, and there are at least as many names in it as it is long. -/
lemma exists_full_row {first : Text} {n : Nat}
    (h : ∀ m < n, IsCrowded names (underscored first m)) :
    ∃ start k, first = underscored start k ∧ k + n ≤ countInRow start (k + n) names := by
  classical
  -- the longest part of the row, up to its end, that is full
  have hexists : ∃ m, m ≤ n ∧ n - m ≤ countInRow (underscored first m) (n - m) names :=
    ⟨n, Nat.le_refl n, by rw [Nat.sub_self]; exact Nat.zero_le _⟩
  obtain ⟨hle, hfull⟩ := Nat.find_spec hexists
  have hleast : ∀ m < Nat.find hexists, ¬ (m ≤ n ∧
      n - m ≤ countInRow (underscored first m) (n - m) names) := fun m => Nat.find_min hexists
  generalize Nat.find hexists = m at hle hfull hleast
  cases m with
  | zero => exact ⟨first, 0, (underscored_zero first).symm, by simpa using hfull⟩
  | succ m =>
      obtain ⟨start, l, hl, hcrowded⟩ := h m (by omega)
      have hjoin : underscored start (l + 1) = underscored first (m + 1) := by
        rw [underscored_add, ← hl, ← underscored_add]
      have hcount := countInRow_add start (l + 1) (n - (m + 1)) names
      rw [hjoin] at hcount
      rcases Nat.lt_or_ge l m with hlt | hge
      · -- the full part would reach further back
        have hstart : start = underscored first (m - l) := by
          rw [← Nat.sub_add_cancel (Nat.le_of_lt hlt)] at hl
          exact (eq_of_underscored_eq hl).symm
        rw [hstart, show l + 1 + (n - (m + 1)) = n - (m - l) by omega] at hcount
        exact absurd ⟨by omega, by rw [hcount, ← hstart]; omega⟩ (hleast (m - l) (by omega))
      · have hstart : first = underscored start (l - m) := by
          rw [← Nat.sub_add_cancel hge] at hl
          exact (eq_of_underscored_eq hl.symm).symm
        refine ⟨start, l - m, hstart, ?_⟩
        rw [show l - m + n = l + 1 + (n - (m + 1)) by omega, hcount]
        omega

/-! ### One name more -/

/-- What is crowded stays so when a name comes in. -/
lemma IsCrowded.concat {name : Text} (h : IsCrowded names name) (last : Text) :
    IsCrowded (names ++ [last]) name := by
  obtain ⟨first, m, rfl, hcount⟩ := h
  exact ⟨first, m, rfl, by rw [countInRow_concat]; omega⟩

/-- A name that comes in crowds out the one behind the crowded names of its row. -/
lemma isCrowded_concat_underscored {last : Text} {n : Nat}
    (h : ∀ m < n, IsCrowded names (underscored last m)) :
    IsCrowded (names ++ [last]) (underscored last n) := by
  obtain ⟨start, k, rfl, hfull⟩ := exists_full_row h
  refine ⟨start, k + n, (underscored_add start k n).symm, ?_⟩
  have hrow : isInRow start (k + n + 1) (underscored start k) = true :=
    isInRow_iff.mpr ⟨k, by omega, rfl⟩
  have hmore := countInRow_add start (k + n) 1 names
  rw [countInRow_concat, hrow, if_pos rfl]
  omega

/-- If neither a name inside a row nor its end is crowded, the row is longer by two at least than
the number of names in it. -/
lemma countInRow_lt_of_not_isCrowded {first : Text} {l m : Nat} (hlt : l < m)
    (hfront : ¬ IsCrowded names (underscored first l))
    (hback : ¬ IsCrowded names (underscored first m)) : countInRow first (m + 1) names < m := by
  have hl : ¬ l < countInRow first (l + 1) names := fun hcount => hfront ⟨first, l, rfl, hcount⟩
  have hm : ¬ m - l - 1 < countInRow (underscored first (l + 1)) (m - l - 1 + 1) names := by
    refine fun hcount => hback ⟨_, m - l - 1, ?_, hcount⟩
    rw [← underscored_add]
    exact congrArg (underscored first) (by omega)
  have hparts := countInRow_add first (l + 1) (m - l - 1 + 1) names
  rw [show l + 1 + (m - l - 1 + 1) = m + 1 by omega] at hparts
  omega

/-- A name that comes in crowds out no other one than the first of its row that was not crowded. -/
lemma IsCrowded.of_concat {last name : Text} {n : Nat} (h : IsCrowded (names ++ [last]) name)
    (hfree : ¬ IsCrowded names (underscored last n))
    (hall : ∀ m < n, IsCrowded names (underscored last m)) :
    IsCrowded names name ∨ name = underscored last n := by
  obtain ⟨first, m, rfl, hcount⟩ := h
  rw [countInRow_concat] at hcount
  by_cases hrow : isInRow first (m + 1) last = true
  · rw [if_pos hrow] at hcount
    obtain ⟨k, hk, rfl⟩ := isInRow_iff.mp hrow
    rw [← underscored_add] at hfree ⊢
    by_contra hneither
    rw [not_or] at hneither
    obtain ⟨hcrowded, hne⟩ := hneither
    -- the name that was not crowded stands in the row, in front of its end
    have hlt : k + n < m := by
      by_contra hge
      have hdiff : m ≠ k + n := fun heq => hne (congrArg (underscored first) heq)
      have hmem := hall (m - k) (by omega)
      rw [← underscored_add, Nat.add_sub_cancel' (by omega)] at hmem
      exact hcrowded hmem
    have hfew := countInRow_lt_of_not_isCrowded hlt hfree hcrowded
    omega
  · rw [if_neg hrow] at hcount
    exact Or.inl ⟨first, m, rfl, hcount⟩

/-- **A name is taken exactly if the row that ends with it is crowded.** -/
theorem mem_newNames_iff (names : List Text) (name : Text) :
    name ∈ newNames [] names ↔ IsCrowded names name := by
  induction names using List.reverseRecOn generalizing name with
  | nil =>
      constructor
      · intro h
        cases h
      · rintro ⟨first, n, -, hcount⟩
        cases hcount
  | append_singleton names last ih =>
      obtain ⟨n, hn, hnot, hall⟩ := exists_newName (newNames [] names) last
      rw [ih] at hnot
      have hcrowded : ∀ m < n, IsCrowded names (underscored last m) := fun m hm =>
        (ih _).mp (hall m hm)
      rw [newNames_concat, List.mem_append, List.mem_singleton, hn, ih]
      constructor
      · rintro (h | rfl)
        · exact h.concat last
        · exact isCrowded_concat_underscored hcrowded
      · exact fun h => h.of_concat hnot hcrowded

/-- **Where a name is found among the new ones**: where it stands first among the old ones, unless
the names in front of it crowd it out. Then it was taken before. -/
theorem idxOf_newNames {name : Text} (h : name ∈ names) :
    (newNames [] names).idxOf name ≤ names.idxOf name ∧
      ((newNames [] names).idxOf name = names.idxOf name ↔
        ¬ IsCrowded (names.take (names.idxOf name)) name) := by
  have hlt := List.idxOf_lt_length_of_mem h
  have hlength : (newNames [] (names.take (names.idxOf name))).length = names.idxOf name := by
    rw [← (forall₂_newNames [] _).length_eq, List.length_take]
    omega
  have hsplit : newNames [] names = newNames [] (names.take (names.idxOf name)) ++
      newNames ((newNames [] (names.take (names.idxOf name))).reverse ++ [])
        (name :: names.drop (names.idxOf name + 1)) := by
    rw [← newNames_append]
    congr 1
    have hdrop := List.drop_eq_getElem_cons hlt
    rw [List.getElem_idxOf] at hdrop
    rw [← hdrop, List.take_append_drop]
  rw [← mem_newNames_iff, hsplit]
  by_cases hmem : name ∈ newNames [] (names.take (names.idxOf name))
  · have hbefore := List.idxOf_lt_length_of_mem hmem
    rw [List.idxOf_append_of_mem hmem]
    exact ⟨by omega, fun heq => by omega, fun hnot => absurd hmem hnot⟩
  · have hfree : name ∉ (newNames [] (names.take (names.idxOf name))).reverse ++ [] := by
      rwa [List.append_nil, List.mem_reverse]
    rw [List.idxOf_append_of_notMem hmem, newNames, newName_of_notMem hfree, List.idxOf_cons_self,
      hlength]
    exact ⟨by omega, fun _ => hmem, fun _ => rfl⟩

end Listing

end EventScript
