import EventScript.LineMap
import Mathlib.Data.List.Basic
import Mathlib.Tactic.Common

/-!
Which map of a list a line is looked up in.

A lookup keeps the maps that hold the line, and takes one with the least or the greatest key of
these. Where several have this key, it matters which of them wins. The list needs no order, and its
other maps may be anything, also ranges that end before they start.

* `LineMap.pick`: the entry that is left when each one is compared with what is left of those behind
  it. Both searches are of this form, and `pick_filter_eq_some_iff` says what they find;
* `LineMap.IsFirstLeast`, `LineMap.IsLastGreatest`: the first map with the least key, and the last
  one with the greatest, among the maps with a property;
* `LineMap.lookups_exact`: both lookups.
-/

namespace EventScript

namespace LineMap

/-! ### One search for both lookups -/

section Pick

variable (keeps : LineMap → LineMap → Prop) [DecidableRel keeps]

/-- The entry that is left of a list: an entry is taken if it is kept against the one that is left
of those behind it. -/
def pick : List LineMap → Option LineMap
  | [] => none
  | m :: rest =>
    match pick rest with
    | none => some m
    | some n => if keeps m n then some m else some n

variable {keeps} {maps : List LineMap} {m : LineMap}

lemma pick_eq_none_iff : pick keeps maps = none ↔ maps = [] := by
  cases maps with
  | nil => exact iff_of_true rfl rfl
  | cons m rest =>
      refine iff_of_false ?_ (List.cons_ne_nil m rest)
      rw [pick]
      split
      · exact Option.some_ne_none m
      · split <;> exact Option.some_ne_none _

lemma mem_of_pick (h : pick keeps maps = some m) : m ∈ maps := by
  induction maps with
  | nil => cases h
  | cons x rest ih =>
      rw [pick] at h
      split at h
      · exact Option.some.inj h ▸ List.mem_cons_self
      · next y hy =>
          split at h
          · exact Option.some.inj h ▸ List.mem_cons_self
          · exact List.mem_cons_of_mem x (ih (hy.trans h))

/-- What is kept against all entries behind it, and against which none in front is kept, is
taken. -/
lemma pick_append_cons {front back : List LineMap} (hfront : ∀ n ∈ front, ¬ keeps n m)
    (hback : ∀ n ∈ back, keeps m n) : pick keeps (front ++ m :: back) = some m := by
  induction front with
  | nil =>
      rw [List.nil_append, pick]
      split
      · rfl
      · next n hn => exact if_pos (hback n (mem_of_pick hn))
  | cons x front ih =>
      rw [List.forall_mem_cons] at hfront
      rw [List.cons_append, pick, ih hfront.2]
      exact if_neg hfront.1

/-- Nothing else is taken, if what is kept against an entry is kept against all that this entry wins
over, on either side. -/
lemma exists_split_of_pick (hbehind : ∀ x y z, keeps x y → keeps y z → keeps x z)
    (hinFront : ∀ x y z, keeps x y → ¬ keeps z y → keeps x z) (h : pick keeps maps = some m) :
    ∃ front back, maps = front ++ m :: back ∧ (∀ n ∈ front, ¬ keeps n m) ∧
      ∀ n ∈ back, keeps m n := by
  induction maps generalizing m with
  | nil => cases h
  | cons x rest ih =>
      rw [pick] at h
      split at h
      · next hnone =>
          obtain rfl := pick_eq_none_iff.mp hnone
          obtain rfl := Option.some.inj h
          exact ⟨[], [], rfl, List.forall_mem_nil _, List.forall_mem_nil _⟩
      · next y hy =>
          split at h
          · next hkeeps =>
              obtain rfl := Option.some.inj h
              obtain ⟨front, back, rfl, hfront, hback⟩ := ih hy
              refine ⟨[], front ++ y :: back, rfl, List.forall_mem_nil _, ?_⟩
              rw [List.forall_mem_append, List.forall_mem_cons]
              exact ⟨fun z hz => hinFront x y z hkeeps (hfront z hz), hkeeps,
                fun z hz => hbehind x y z hkeeps (hback z hz)⟩
          · next hkeeps =>
              obtain rfl := Option.some.inj h
              obtain ⟨front, back, rfl, hfront, hback⟩ := ih hy
              exact ⟨x :: front, back, rfl, List.forall_mem_cons.mpr ⟨hkeeps, hfront⟩, hback⟩

/-- **What the search takes among the maps with a property**: the map that is kept against all such
maps behind it, and against which none in front of it is kept. -/
lemma pick_filter_eq_some_iff (hbehind : ∀ x y z, keeps x y → keeps y z → keeps x z)
    (hinFront : ∀ x y z, keeps x y → ¬ keeps z y → keeps x z) (P : LineMap → Bool) :
    pick keeps (maps.filter P) = some m ↔ P m = true ∧ ∃ front back, maps = front ++ m :: back ∧
      (∀ n ∈ front, P n = true → ¬ keeps n m) ∧ ∀ n ∈ back, P n = true → keeps m n := by
  constructor
  · intro h
    have hm : P m = true := (List.mem_filter.mp (mem_of_pick h)).2
    obtain ⟨front, back, hsplit, hfront, hback⟩ := exists_split_of_pick hbehind hinFront h
    obtain ⟨front', rest, rfl, rfl, hrest⟩ := List.filter_eq_append_iff.mp hsplit
    obtain ⟨between, back', rfl, hbetween, -, rfl⟩ := List.filter_eq_cons_iff.mp hrest
    refine ⟨hm, front' ++ between, back', (List.append_assoc ..).symm, ?_, ?_⟩
    · rw [List.forall_mem_append]
      exact ⟨fun n hn hP => hfront n (List.mem_filter.mpr ⟨hn, hP⟩),
        fun n hn hP => absurd hP (hbetween n hn)⟩
    · exact fun n hn hP => hback n (List.mem_filter.mpr ⟨hn, hP⟩)
  · rintro ⟨hm, front, back, rfl, hfront, hback⟩
    rw [List.filter_append, List.filter_cons_of_pos hm]
    refine pick_append_cons (fun n hn => ?_) fun n hn => ?_
    · exact hfront n (List.mem_of_mem_filter hn) (List.mem_filter.mp hn).2
    · exact hback n (List.mem_of_mem_filter hn) (List.mem_filter.mp hn).2

end Pick

variable {maps : List LineMap} {m : LineMap}

lemma firstLeast_eq_pick (key : LineMap → UInt32) (maps : List LineMap) :
    firstLeast key maps = pick (fun m n => key m ≤ key n) maps := by
  induction maps with
  | nil => rfl
  | cons m rest ih =>
      cases hrest : pick (fun m n => key m ≤ key n) rest with
      | none => rw [firstLeast, pick, ih, hrest]
      | some n => rw [firstLeast, pick, ih, hrest]

lemma lastGreatest_eq_pick (key : LineMap → UInt32) (maps : List LineMap) :
    lastGreatest key maps = pick (fun m n => key n < key m) maps := by
  induction maps with
  | nil => rfl
  | cons m rest ih =>
      rw [lastGreatest, pick, ih]
      cases pick (fun m n => key n < key m) rest with
      | none => rfl
      | some n => simp only [← UInt32.not_le, ite_not]

lemma firstLeast_filter_eq_some_iff (key : LineMap → UInt32) (P : LineMap → Bool) :
    firstLeast key (maps.filter P) = some m ↔ P m = true ∧ ∃ front back, maps = front ++ m :: back ∧
      (∀ n ∈ front, P n = true → key m < key n) ∧ ∀ n ∈ back, P n = true → key m ≤ key n := by
  have hbehind (x y z : LineMap) (hxy : key x ≤ key y) (hyz : key y ≤ key z) : key x ≤ key z :=
    UInt32.le_trans hxy hyz
  have hinFront (x y z : LineMap) (hxy : key x ≤ key y) (hzy : ¬ key z ≤ key y) : key x ≤ key z :=
    UInt32.le_trans hxy (UInt32.le_of_lt (UInt32.not_le.mp hzy))
  rw [firstLeast_eq_pick, pick_filter_eq_some_iff hbehind hinFront]
  simp only [UInt32.not_le]

lemma lastGreatest_filter_eq_some_iff (key : LineMap → UInt32) (P : LineMap → Bool) :
    lastGreatest key (maps.filter P) = some m ↔
      P m = true ∧ ∃ front back, maps = front ++ m :: back ∧
        (∀ n ∈ front, P n = true → key n ≤ key m) ∧ ∀ n ∈ back, P n = true → key n < key m := by
  have hbehind (x y z : LineMap) (hxy : key y < key x) (hyz : key z < key y) : key z < key x :=
    UInt32.lt_trans hyz hxy
  have hinFront (x y z : LineMap) (hxy : key y < key x) (hzy : ¬ key y < key z) : key z < key x :=
    UInt32.lt_of_le_of_lt (UInt32.not_lt.mp hzy) hxy
  rw [lastGreatest_eq_pick, pick_filter_eq_some_iff hbehind hinFront]
  simp only [UInt32.not_lt]

/-! ### What is looked up -/

/-- The first of the maps with a property whose key is least among them. -/
def IsFirstLeast (P : LineMap → Prop) (key : LineMap → Int) (maps : List LineMap) (m : LineMap) :
    Prop :=
  P m ∧ ∃ front back, maps = front ++ m :: back ∧ (∀ n ∈ front, P n → key m < key n) ∧
    ∀ n ∈ back, P n → key m ≤ key n

/-- The last of the maps with a property whose key is greatest among them. -/
def IsLastGreatest (P : LineMap → Prop) (key : LineMap → Int) (maps : List LineMap) (m : LineMap) :
    Prop :=
  P m ∧ ∃ front back, maps = front ++ m :: back ∧ (∀ n ∈ front, P n → key n ≤ key m) ∧
    ∀ n ∈ back, P n → key n < key m

/-- How many lines behind its first line a source range ends. This is negative if the range ends
before it starts. -/
def sourceLength (m : LineMap) : Int := (m.sourceEnd.toNat : Int) - m.source.toNat

variable {line : UInt32}

lemma holdsSource_iff : m.holdsSource line = true ↔ m.source ≤ line ∧ line ≤ m.sourceEnd :=
  decide_eq_true_iff

lemma holdsPrinted_iff : m.holdsPrinted line = true ↔ m.printed ≤ line ∧ line ≤ m.printedEnd :=
  decide_eq_true_iff

/-- On a map that holds a line, the length of the range does not wrap around. -/
lemma toNat_sub_eq_sourceLength (h : m.source ≤ line ∧ line ≤ m.sourceEnd) :
    ((m.sourceEnd - m.source).toNat : Int) = m.sourceLength := by
  have hle : m.source ≤ m.sourceEnd := UInt32.le_trans h.1 h.2
  rw [UInt32.toNat_sub_of_le _ _ hle, sourceLength]
  rw [UInt32.le_iff_toNat_le] at hle
  omega

/-- The line of the narrowest map: where ranges are not reversed, their computed lengths compare as
the lengths do. -/
lemma printedLine?_eq_some_iff {l : UInt32} :
    printedLine? maps line = some l ↔
      ∃ m, IsFirstLeast (fun m => m.source ≤ line ∧ line ≤ m.sourceEnd) sourceLength maps m ∧
        m.printed = l := by
  rw [printedLine?, Option.map_eq_some_iff]
  refine exists_congr fun m => and_congr_left' ?_
  rw [firstLeast_filter_eq_some_iff, IsFirstLeast, holdsSource_iff]
  refine and_congr_right fun hm => exists_congr fun front => exists_congr fun back => ?_
  simp only [holdsSource_iff]
  refine and_congr_right' (and_congr ?_ ?_)
  · refine forall₂_congr fun n _ => forall_congr' fun hn => ?_
    rw [← toNat_sub_eq_sourceLength hm, ← toNat_sub_eq_sourceLength hn, Int.ofNat_lt,
      UInt32.lt_iff_toNat_lt]
  · refine forall₂_congr fun n _ => forall_congr' fun hn => ?_
    rw [← toNat_sub_eq_sourceLength hm, ← toNat_sub_eq_sourceLength hn, Int.ofNat_le,
      UInt32.le_iff_toNat_le]

lemma sourceLine?_eq_some_iff {l : UInt32} :
    sourceLine? maps line = some l ↔
      ∃ m, IsLastGreatest (fun m => m.printed ≤ line ∧ line ≤ m.printedEnd)
        (fun m => m.printed.toNat) maps m ∧ m.source = l := by
  rw [sourceLine?, Option.map_eq_some_iff]
  refine exists_congr fun m => and_congr_left' ?_
  rw [lastGreatest_filter_eq_some_iff, IsLastGreatest]
  simp only [holdsPrinted_iff, Int.ofNat_le, Int.ofNat_lt, UInt32.le_iff_toNat_le,
    UInt32.lt_iff_toNat_lt]

lemma printedLine?_eq_none_iff :
    printedLine? maps line = none ↔ ∀ m ∈ maps, ¬ (m.source ≤ line ∧ line ≤ m.sourceEnd) := by
  rw [printedLine?, firstLeast_eq_pick, Option.map_eq_none_iff, pick_eq_none_iff,
    List.filter_eq_nil_iff]
  simp only [holdsSource_iff]

lemma sourceLine?_eq_none_iff :
    sourceLine? maps line = none ↔ ∀ m ∈ maps, ¬ (m.printed ≤ line ∧ line ≤ m.printedEnd) := by
  rw [sourceLine?, lastGreatest_eq_pick, Option.map_eq_none_iff, pick_eq_none_iff,
    List.filter_eq_nil_iff]
  simp only [holdsPrinted_iff]

/-- **What the lookups find.** A source line is looked up in the first of the narrowest maps that
hold it, and a printed line in the last of those that start last among the maps that hold it; only a
line that no map holds is not found. The lengths that are compared do not wrap around, whatever
ranges the list has. -/
theorem lookups_exact (maps : List LineMap) (line : UInt32) :
    (∀ m ∈ maps, m.source ≤ line ∧ line ≤ m.sourceEnd →
        ((m.sourceEnd - m.source).toNat : Int) = m.sourceLength) ∧
      (printedLine? maps line = none ↔ ∀ m ∈ maps, ¬ (m.source ≤ line ∧ line ≤ m.sourceEnd)) ∧
      (∀ l, printedLine? maps line = some l ↔
        ∃ m, IsFirstLeast (fun m => m.source ≤ line ∧ line ≤ m.sourceEnd) sourceLength maps m ∧
          m.printed = l) ∧
      (sourceLine? maps line = none ↔ ∀ m ∈ maps, ¬ (m.printed ≤ line ∧ line ≤ m.printedEnd)) ∧
      ∀ l, sourceLine? maps line = some l ↔
        ∃ m, IsLastGreatest (fun m => m.printed ≤ line ∧ line ≤ m.printedEnd)
          (fun m => m.printed.toNat) maps m ∧ m.source = l :=
  ⟨fun _ _ => toNat_sub_eq_sourceLength, printedLine?_eq_none_iff,
    fun _ => printedLine?_eq_some_iff, sourceLine?_eq_none_iff, fun _ => sourceLine?_eq_some_iff⟩

/-- Of two maps of the same length the first one is found, and a reversed one is passed over. -/
example :
    printedLine? [⟨3, 6, 3, 5⟩, ⟨9, 2, 1, 1⟩, ⟨4, 5, 4, 4⟩, ⟨3, 4, 8, 8⟩] 4 = some 4 := by decide

end LineMap

end EventScript
