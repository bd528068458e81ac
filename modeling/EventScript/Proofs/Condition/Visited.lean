import EventScript.Condition.Walk
import EventScript.Proofs.Visit
import Mathlib.Data.List.Basic

/-!
Visits of a condition change it node by node.

The conditions in a condition have addresses: the indices of the parts on the way down to them.

* `Condition.get?`, `Condition.set`: the condition at an address, and a condition with another one
  there;
* `Condition.addresses`: all addresses, in the order of the visit;
* `Condition.isVisit_edit`: a visit that may change the condition visits these addresses, as the one
  that does not;
* `Condition.edit_stateless`: what a visitor makes of the condition does not depend on the
  direction, if it looks at no state.
-/

namespace EventScript

namespace Condition

/-- The parts of a combination. -/
def parts : Condition → List Condition
  | atom .. => []
  | combine _ parts _ _ => parts

/-- The condition with its parts changed. -/
def mapParts (f : List Condition → List Condition) : Condition → Condition
  | atom a negated remarks => atom a negated remarks
  | combine op parts negated remarks => combine op (f parts) negated remarks

/-- A condition without its parts. -/
def shell (c : Condition) : Condition := c.mapParts fun _ => []

/-- The condition at an address. The empty address is that of the condition itself. -/
def get? (c : Condition) : List Nat → Option Condition
  | [] => some c
  | index :: path => c.parts[index]?.bind fun part => get? part path

/-- The condition with another one at an address. -/
def set : List Nat → Condition → Condition → Condition
  | [], d, _ => d
  | index :: path, d, c => c.mapParts fun parts => parts.modify index (set path d)

mutual

/-- The addresses of all conditions in a condition, in the order of the visit. -/
def addresses (dir : Direction) : Condition → List (List Nat)
  | atom .. => [[]]
  | combine _ parts _ _ => addressesFrom dir 0 parts ++ [[]]

/-- The addresses of the conditions in parts that stand from an index on. -/
def addressesFrom (dir : Direction) (index : Nat) : List Condition → List (List Nat)
  | [] => []
  | c :: cs =>
    match dir with
    | .forward => (addresses dir c).map (List.cons index) ++ addressesFrom dir (index + 1) cs
    | .backward => addressesFrom dir (index + 1) cs ++ (addresses dir c).map (List.cons index)

end

/-- The conditions in a condition, by addresses. -/
def places : Places Condition (List Nat) Condition := ⟨get?, set⟩

variable {dir : Direction} {c d : Condition}

/-! ### Looking up and replacing -/

@[simp] lemma parts_mapParts (f : List Condition → List Condition) (op : Connective)
    (cs : List Condition) (negated : Bool) (remarks : List Remark) :
    ((combine op cs negated remarks).mapParts f).parts = f cs := rfl

@[simp] lemma shell_mapParts (f : List Condition → List Condition) (c : Condition) :
    (c.mapParts f).shell = c.shell := by
  cases c <;> rfl

/-- A part is looked up as a condition of its own. -/
lemma get?_combine_part (op : Connective) (front back : List Condition) (negated : Bool)
    (remarks : List Remark) (path : List Nat) :
    (combine op (front ++ c :: back) negated remarks).get? (front.length :: path) =
      c.get? path := by
  simp [get?, parts]

/-- A part is changed as a condition of its own. -/
lemma set_combine_part (op : Connective) (front back : List Condition) (negated : Bool)
    (remarks : List Remark) (path : List Nat) :
    set (front.length :: path) d (combine op (front ++ c :: back) negated remarks) =
      combine op (front ++ set path d c :: back) negated remarks := by
  simp [set, mapParts, List.modify_eq_set_getElem?]

/-- What is put at an address shows only there and inside it, and in the parts of what it is
inside of. -/
lemma map_shell_get?_set (c : Condition) (p q : List Nat) (d : Condition) (h : ¬ p <+: q) :
    ((set p d c).get? q).map shell = (c.get? q).map shell := by
  induction p generalizing c q with
  | nil => exact absurd (List.nil_prefix) h
  | cons i p ih =>
      cases q with
      | nil => simp [get?, set]
      | cons j q =>
          cases c with
          | atom a negated remarks => rfl
          | combine op cs negated remarks =>
              simp only [get?, set, parts_mapParts]
              simp only [parts]
              by_cases hij : i = j
              · subst hij
                have hpq : ¬ p <+: q := fun hpq => h (List.cons_prefix_cons.mpr ⟨rfl, hpq⟩)
                rw [List.getElem?_modify_eq, Option.map_eq_map, Option.bind_map, Option.map_bind,
                  Option.map_bind]
                exact congrArg _ (funext fun part => ih part q hpq)
              · rw [List.getElem?_modify_ne _ _ hij]

/-! ### The addresses -/

lemma mem_addressesFrom {index : Nat} {cs : List Condition} {p : List Nat} :
    p ∈ addressesFrom dir index cs ↔
      ∃ i part path, cs[i]? = some part ∧ path ∈ part.addresses dir ∧ p = (index + i) :: path := by
  induction cs generalizing index with
  | nil => simp [addressesFrom]
  | cons c cs ih =>
      have hmem : p ∈ addressesFrom dir index (c :: cs) ↔
          (∃ path ∈ c.addresses dir, p = index :: path) ∨ p ∈ addressesFrom dir (index + 1) cs := by
        cases dir <;> simp [addressesFrom, or_comm, eq_comm]
      rw [hmem, ih]
      constructor
      · rintro (⟨path, hpath, rfl⟩ | ⟨i, part, path, hi, hpath, rfl⟩)
        · exact ⟨0, c, path, rfl, hpath, rfl⟩
        · exact ⟨i + 1, part, path, hi, hpath, by rw [Nat.add_right_comm, Nat.add_assoc]⟩
      · rintro ⟨i, part, path, hi, hpath, rfl⟩
        cases i with
        | zero =>
            obtain rfl := Option.some.inj hi
            exact Or.inl ⟨path, hpath, rfl⟩
        | succ i =>
            exact Or.inr ⟨i, part, path, hi, hpath, by rw [Nat.add_right_comm, Nat.add_assoc]⟩

/-- The addresses are where a condition is found. -/
lemma mem_addresses_iff {p : List Nat} : p ∈ c.addresses dir ↔ c.get? p ≠ none := by
  induction p generalizing c with
  | nil => cases c <;> simp [addresses, get?]
  | cons i p ih =>
      cases c with
      | atom a negated remarks => simp [addresses, get?, parts]
      | combine op cs negated remarks =>
          rw [addresses, List.mem_append, mem_addressesFrom, get?, parts]
          simp only [List.mem_singleton, reduceCtorEq, or_false, Nat.zero_add, List.cons.injEq]
          constructor
          · rintro ⟨i, part, path, hi, hpath, rfl, rfl⟩
            rw [hi, Option.bind_some]
            exact ih.mp hpath
          · intro h
            cases hi : cs[i]? with
            | none => simp [hi] at h
            | some part =>
                rw [hi, Option.bind_some] at h
                exact ⟨i, part, p, hi, ih.mpr h, rfl, rfl⟩

mutual

/-- The addresses are those of the conditions that are visited. -/
lemma map_get?_addresses (dir : Direction) : ∀ c : Condition,
    (c.addresses dir).map c.get? = (c.walk dir).map some
  | atom a negated remarks => rfl
  | combine op cs negated remarks => by
      rw [addresses, walk, List.map_append, List.map_append,
        ← map_get?_addressesFrom dir op negated remarks cs []]
      rfl

lemma map_get?_addressesFrom (dir : Direction) (op : Connective) (negated : Bool)
    (remarks : List Remark) : ∀ cs front : List Condition,
    (addressesFrom dir front.length cs).map (combine op (front ++ cs) negated remarks).get? =
      (walkAll dir cs).map some
  | [], front => rfl
  | c :: cs, front => by
      have hc : ((c.addresses dir).map (List.cons front.length)).map
          (combine op (front ++ c :: cs) negated remarks).get? = (c.walk dir).map some := by
        rw [← map_get?_addresses dir c, List.map_map]
        exact List.map_congr_left fun path _ => get?_combine_part op front cs negated remarks path
      have hcs := map_get?_addressesFrom dir op negated remarks cs (front ++ [c])
      rw [List.length_append, List.length_singleton, List.append_assoc,
        List.singleton_append] at hcs
      cases dir with
      | forward => rw [addressesFrom, walkAll, List.map_append, List.map_append, hc, hcs]
      | backward => rw [addressesFrom, walkAll, List.map_append, List.map_append, hc, hcs]

end

/-- The addresses of a part and those of the parts behind it are apart. -/
lemma not_prefix_of_mem_addressesFrom {index : Nat} {cs : List Condition} {path q : List Nat}
    (hq : q ∈ addressesFrom dir (index + 1) cs) :
    ¬ index :: path <+: q ∧ ¬ q <+: index :: path := by
  obtain ⟨i, part, path', -, -, rfl⟩ := mem_addressesFrom.mp hq
  constructor
  · intro h
    obtain ⟨heq, -⟩ := List.cons_prefix_cons.mp h
    omega
  · intro h
    obtain ⟨heq, -⟩ := List.cons_prefix_cons.mp h
    omega

mutual

/-- No address is above one that comes later, and none comes twice. -/
lemma pairwise_addresses (dir : Direction) : ∀ c : Condition,
    (c.addresses dir).Pairwise fun p q => ¬ p <+: q
  | atom a negated remarks => List.pairwise_singleton ..
  | combine op cs negated remarks => by
      rw [addresses]
      refine List.pairwise_append.mpr
        ⟨pairwise_addressesFrom dir 0 cs, List.pairwise_singleton .., fun p hp q hq => ?_⟩
      obtain ⟨i, part, path, -, -, rfl⟩ := mem_addressesFrom.mp hp
      rw [List.mem_singleton.mp hq, List.prefix_nil]
      exact List.cons_ne_nil _ _

lemma pairwise_addressesFrom (dir : Direction) (index : Nat) : ∀ cs : List Condition,
    (addressesFrom dir index cs).Pairwise fun p q => ¬ p <+: q
  | [] => List.Pairwise.nil
  | c :: cs => by
      have hc : ((c.addresses dir).map (List.cons index)).Pairwise fun p q => ¬ p <+: q := by
        refine List.pairwise_map.mpr ((pairwise_addresses dir c).imp fun hpq h => hpq ?_)
        exact (List.cons_prefix_cons.mp h).2
      have hcs := pairwise_addressesFrom dir (index + 1) cs
      cases dir with
      | forward =>
          refine List.pairwise_append.mpr ⟨hc, hcs, fun p hp q hq => ?_⟩
          obtain ⟨path, -, rfl⟩ := List.mem_map.mp hp
          exact (not_prefix_of_mem_addressesFrom hq).1
      | backward =>
          refine List.pairwise_append.mpr ⟨hcs, hc, fun p hp q hq => ?_⟩
          obtain ⟨path, -, rfl⟩ := List.mem_map.mp hq
          exact (not_prefix_of_mem_addressesFrom hp).2

end

/-! ### The calls -/

section Calls

variable {σ : Type} (visit : Condition → σ → Condition × σ)

/-- A part is visited as a condition of its own. -/
lemma visits_part {ps : List (List Nat)} {s s' : σ} {given : List Condition} {c c' : Condition}
    (op : Connective) (front back : List Condition) (negated : Bool) (remarks : List Remark)
    (h : Visits places visit ps c s given c' s') :
    Visits places visit (ps.map (List.cons front.length))
      (combine op (front ++ c :: back) negated remarks) s given
      (combine op (front ++ c' :: back) negated remarks) s' :=
  Visits.within (P := places) (Q := places)
    (fun c => combine op (front ++ c :: back) negated remarks) (List.cons front.length)
    (fun _ path => get?_combine_part op front back negated remarks path)
    (fun _ path _ => set_combine_part op front back negated remarks path) h

mutual

/-- A visit calls the visitor at the addresses. -/
lemma exists_visits_edit (dir : Direction) : ∀ (c : Condition) (s : σ), ∃ given,
    Visits places visit (c.addresses dir) c s given (c.edit dir visit s).1 (c.edit dir visit s).2
  | atom a negated remarks, s => ⟨_, .single rfl⟩
  | combine op cs negated remarks, s => by
      obtain ⟨given, hparts⟩ := exists_visits_editAll dir op negated remarks cs [] s
      exact ⟨_, hparts.append (.single rfl)⟩

lemma exists_visits_editAll (dir : Direction) (op : Connective) (negated : Bool)
    (remarks : List Remark) : ∀ (cs front : List Condition) (s : σ), ∃ given,
    Visits places visit (addressesFrom dir front.length cs)
      (combine op (front ++ cs) negated remarks) s given
      (combine op (front ++ (editAll dir visit cs s).1) negated remarks) (editAll dir visit cs s).2
  | [], front, s => ⟨_, .done _ _⟩
  | c :: cs, front, s => by
      -- the parts in front are those that a visit forward has changed, or those that one backward
      -- has not come to
      have hrest : ∀ (c : Condition) (s : σ), ∃ given,
          Visits places visit (addressesFrom dir (front.length + 1) cs)
            (combine op (front ++ c :: cs) negated remarks) s given
            (combine op (front ++ c :: (editAll dir visit cs s).1) negated remarks)
            (editAll dir visit cs s).2 := by
        intro c s
        have h := exists_visits_editAll dir op negated remarks cs (front ++ [c]) s
        simpa only [List.length_append, List.length_singleton, List.append_assoc,
          List.singleton_append] using h
      cases dir with
      | forward =>
          obtain ⟨given, hc⟩ := exists_visits_edit .forward c s
          obtain ⟨given', hcs⟩ := hrest (c.edit .forward visit s).1 (c.edit .forward visit s).2
          exact ⟨_, (visits_part visit op front cs negated remarks hc).append hcs⟩
      | backward =>
          obtain ⟨given, hcs⟩ := hrest c s
          obtain ⟨given', hc⟩ := exists_visits_edit .backward c (editAll .backward visit cs s).2
          exact ⟨_, hcs.append (visits_part visit op front _ negated remarks hc)⟩

end

end Calls

/-- **A visit that changes a condition is a visit of it.** In both directions the visitor is called
at the addresses of the condition, in the order in which the conditions are visited when nothing is
changed. -/
theorem isVisit_edit (dir : Direction) (c : Condition) :
    IsVisit places (fun q p => p <+: q) shell (c.addresses dir) (c.walk dir)
      (fun _ visit => edit dir visit) c :=
  Visits.isVisit map_shell_get?_set (map_get?_addresses dir c) (fun _ => mem_addresses_iff)
    (pairwise_addresses dir c) (fun visit s => exists_visits_edit visit dir c s)

/-! ### Visitors that look at no state -/

section Stateless

variable {σ : Type} (f : Condition → Condition) (g : Condition → σ → σ)

mutual

/-- What a visitor makes of a condition does not depend on the direction or on the state it starts
with, if what it puts in the place of a condition depends on nothing but that condition. -/
theorem edit_stateless (dir dir' : Direction) : ∀ (c : Condition) (s s' : σ),
    (c.edit dir (fun d s => (f d, g d s)) s).1 = (c.edit dir' (fun d s => (f d, g d s)) s').1
  | atom a negated remarks, s, s' => rfl
  | combine op cs negated remarks, s, s' => by
      simp only [edit]
      rw [editAll_stateless dir dir' cs s s']

lemma editAll_stateless (dir dir' : Direction) : ∀ (cs : List Condition) (s s' : σ),
    (editAll dir (fun d s => (f d, g d s)) cs s).1 =
      (editAll dir' (fun d s => (f d, g d s)) cs s').1
  | [], s, s' => rfl
  | c :: cs, s, s' => by
      cases dir <;> cases dir' <;> simp only [editAll, List.cons.injEq] <;>
        exact ⟨edit_stateless _ _ c _ _, editAll_stateless _ _ cs _ _⟩

end

end Stateless

end Condition

end EventScript
