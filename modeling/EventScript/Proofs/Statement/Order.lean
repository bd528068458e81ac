import EventScript.Proofs.Statement.Site

/-!
The order in which the statements of a body are visited, by positions.

A visit of a body meets the statements in the order in which they stand, and those nested in a
statement before the statement. Here this is an order of positions, without a visit.

* `Position.Precedes`: of two positions the one that is visited first;
* `Body.pairwise_sites`: the sites of a body, which are in the order of the visit, are in this
  order;
* `Body.findSome?_walk_eq_some_iff`: what a search through the visit finds is found at a position
  that nothing which could be found precedes.
-/

namespace EventScript

namespace Position

/-- The statement at the first position is visited before the one at the second position. It stands
in front of it or of a statement that it is nested in, or in an earlier branch, or it is nested in
it. -/
def Precedes : Position → Position → Prop
  | here i, here j => i < j
  | here i, inside j _ _ => i < j
  | inside i _ _, here j => i ≤ j
  | inside i branch p, inside j branch' q =>
    i < j ∨ i = j ∧ (branch < branch' ∨ branch = branch' ∧ p.Precedes q)

/-- The index of a position in its outermost body. -/
def index : Position → Nat
  | here i => i
  | inside i _ _ => i

variable {p q : Position}

/-- No two statements are visited before each other. -/
lemma Precedes.asymm (h : p.Precedes q) : ¬ q.Precedes p := by
  induction p generalizing q with
  | here i =>
      cases q <;> simp only [Precedes] at h ⊢ <;> omega
  | inside i branch p ih =>
      cases q with
      | here j =>
          simp only [Precedes] at h ⊢
          omega
      | inside j branch' q =>
          intro h'
          simp only [Precedes] at h h'
          have hij : i = j := by omega
          have hbranch : branch = branch' := by omega
          obtain hlt | ⟨-, hlt | ⟨-, h⟩⟩ := h
          · omega
          · omega
          obtain hlt | ⟨-, hlt | ⟨-, h'⟩⟩ := h'
          · omega
          · omega
          exact ih h h'

lemma precedes_of_index_lt (h : p.index < q.index) : p.Precedes q := by
  cases p <;> cases q <;> simp only [Precedes, index] at h ⊢ <;> omega

/-- In one branch the positions in it count. -/
lemma precedes_inside_iff {i branch : Nat} :
    (inside i branch p).Precedes (inside i branch q) ↔ p.Precedes q := by
  simp [Precedes]

/-- A statement is visited behind those nested in it. -/
lemma inside_precedes_here (i branch : Nat) : (inside i branch p).Precedes (here i) :=
  Nat.le_refl i

end Position

/-! ### The order of sites -/

/-- The statement of the first site is visited before that of the second one. -/
def Site.Precedes (x y : Site) : Prop := x.position.Precedes y.position

/-- The sites of a statement are at its index. -/
lemma Statement.index_of_mem_sites {index : Nat} {rest : Body} {s : Statement} {x : Site}
    (hx : x ∈ s.sites index rest) : x.position.index = index := by
  rw [sites_eq, List.mem_append, Body.mem_nestedSites, List.mem_singleton] at hx
  obtain ⟨branch, inner, -, y, -, rfl⟩ | rfl := hx
  · rfl
  · rfl

namespace Body

lemma le_index_of_mem_sitesFrom {index : Nat} {body : Body} {x : Site}
    (hx : x ∈ sitesFrom index body) : index ≤ x.position.index := by
  obtain ⟨j, s, -, hs⟩ := mem_sitesFrom.mp hx
  have hindex := Statement.index_of_mem_sites hs
  omega

/-- Sites in order are in order as sites of a branch. -/
lemma pairwise_map_within {xs : List Site} (index branch : Nat) (h : xs.Pairwise Site.Precedes) :
    (xs.map (Site.within index branch)).Pairwise Site.Precedes := by
  refine List.pairwise_map.mpr (h.imp fun hxy => ?_)
  exact Position.precedes_inside_iff.mpr hxy

/-- Behind the sites nested in a statement its own is in order. -/
lemma pairwise_concat_here {xs : List Site} {index : Nat} (s : Statement) (rest : Body)
    (h : xs.Pairwise Site.Precedes)
    (hin : ∀ x ∈ xs, ∃ branch, ∃ y : Site, y.within index branch = x) :
    List.Pairwise Site.Precedes (xs ++ [⟨.here index, s, rest⟩]) := by
  refine List.pairwise_append.mpr ⟨h, List.pairwise_singleton .., fun x hx y hy => ?_⟩
  obtain ⟨branch, z, rfl⟩ := hin x hx
  obtain rfl := List.mem_singleton.mp hy
  exact Position.inside_precedes_here index branch

end Body

mutual

lemma Statement.pairwise_sites (index : Nat) (rest : Body) : ∀ s : Statement,
    (s.sites index rest).Pairwise Site.Precedes
  | .simple tags a => List.pairwise_singleton ..
  | .loop tags code body => by
      have hbody := Body.pairwise_map_within index 0 (Body.pairwise_sitesFrom 0 body)
      rw [Statement.sites]
      refine Body.pairwise_concat_here _ rest hbody fun x hx => ?_
      obtain ⟨y, -, hy⟩ := List.mem_map.mp hx
      exact ⟨0, y, hy⟩
  | .choice tags c yes no => by
      have hyes := Body.pairwise_map_within index 0 (Body.pairwise_sitesFrom 0 yes)
      have hno := Body.pairwise_map_within index 1 (Body.pairwise_sitesFrom 0 no)
      rw [Statement.sites]
      refine Body.pairwise_concat_here _ rest (List.pairwise_append.mpr ⟨hyes, hno, ?_⟩) ?_
      · intro x hx y hy
        obtain ⟨x, -, rfl⟩ := List.mem_map.mp hx
        obtain ⟨y, -, rfl⟩ := List.mem_map.mp hy
        exact Or.inr ⟨rfl, Or.inl Nat.zero_lt_one⟩
      · intro x hx
        obtain hx | hx := List.mem_append.mp hx
        · obtain ⟨y, -, hy⟩ := List.mem_map.mp hx
          exact ⟨0, y, hy⟩
        · obtain ⟨y, -, hy⟩ := List.mem_map.mp hx
          exact ⟨1, y, hy⟩

lemma Body.pairwise_sitesFrom (index : Nat) : ∀ body : List Statement,
    (Body.sitesFrom index body).Pairwise Site.Precedes
  | [] => List.Pairwise.nil
  | s :: rest => by
      rw [Body.sitesFrom]
      refine List.pairwise_append.mpr ⟨Statement.pairwise_sites index rest s,
        Body.pairwise_sitesFrom (index + 1) rest, fun x hx y hy => ?_⟩
      have hxi := Statement.index_of_mem_sites hx
      have hyi := Body.le_index_of_mem_sitesFrom hy
      exact Position.precedes_of_index_lt (by omega)

end

namespace Body

/-- **A visit meets the statements in their order.** -/
theorem pairwise_sites (body : Body) : (sites body).Pairwise Site.Precedes :=
  pairwise_sitesFrom 0 body

/-- **A search through the visit finds what comes first.** -/
theorem findSome?_walk_eq_some_iff {β : Type} (f : Statement → Option β) {body : Body} {b : β} :
    (walk body).findSome? f = some b ↔
      ∃ q s, get? body q = some s ∧ f s = some b ∧
        ∀ p t, get? body p = some t → p.Precedes q → f t = none := by
  have hordered := pairwise_sites body
  rw [walk_eq_map_sites, List.findSome?_map, List.findSome?_eq_some_iff]
  constructor
  · rintro ⟨front, x, back, hsplit, hb, hfront⟩
    rw [hsplit] at hordered
    have hx : x ∈ sites body := by
      rw [hsplit]
      exact List.mem_append_right front List.mem_cons_self
    refine ⟨x.position, x.statement, (mem_sites_iff.mp hx).1, hb, fun p t ht hp => ?_⟩
    -- a site that precedes another one cannot be behind it
    have hsite : ⟨p, t, behind body p⟩ ∈ front ++ x :: back := hsplit ▸ exists_site ht
    obtain ⟨-, hback, -⟩ := List.pairwise_append.mp hordered
    obtain hmem | hmem := List.mem_append.mp hsite
    · exact hfront _ hmem
    obtain rfl | hmem := List.mem_cons.mp hmem
    · exact absurd hp hp.asymm
    · exact absurd hp ((List.pairwise_cons.mp hback).1 _ hmem).asymm
  · rintro ⟨q, s, hs, hb, hfirst⟩
    obtain ⟨front, back, hsplit⟩ := List.append_of_mem (exists_site hs)
    rw [hsplit] at hordered
    obtain ⟨-, -, hbefore⟩ := List.pairwise_append.mp hordered
    refine ⟨front, _, back, hsplit, hb, fun x hx => ?_⟩
    have hmem : x ∈ sites body := by
      rw [hsplit]
      exact List.mem_append_left _ hx
    exact hfirst x.position x.statement (mem_sites_iff.mp hmem).1
      (hbefore x hx _ List.mem_cons_self)

end Body

end EventScript
