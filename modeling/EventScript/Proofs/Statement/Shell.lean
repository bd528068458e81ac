import EventScript.Jump.Skip
import EventScript.Proofs.Statement.Site
import Mathlib.Data.List.Forall2

/-!
Shells: statements without the bodies nested in them.

What a jump or a label is about, a target, the labels, whether it counts as a command, is read off
the shell of a statement. A visitor that looks at shells alone changes an event as if its statements
were one list.

* `Statement.shell` and its simp lemmas: every question of that kind has one answer for a statement
  and for its shell;
* `Body.forall₂_walk_modify`: a statement changed at a position leaves the shells around it alone;
* `Body.outline`: the shells of a body with their positions, in the order of the visit;
* `Body.outline_edit`: the outline after a visit is the list of outlines visited one after the
  other.
-/

namespace EventScript

namespace Statement

/-- The statement with empty bodies. -/
def shell : Statement → Statement
  | simple tags a => simple tags a
  | loop tags code _ => loop tags code []
  | choice tags c _ _ => choice tags c [] []

variable (s : Statement)

@[simp] lemma tags_shell : s.shell.tags = s.tags := by cases s <;> rfl

@[simp] lemma action?_shell : s.shell.action? = s.action? := by cases s <;> rfl

@[simp] lemma isCommand_shell : s.shell.isCommand = s.isCommand := by cases s <;> rfl

@[simp] lemma isBlock_shell : s.shell.isBlock = s.isBlock := by cases s <;> rfl

@[simp] lemma isChoice_shell : s.shell.isChoice = s.isChoice := by cases s <;> rfl

@[simp] lemma isLabel_shell : s.shell.isLabel = s.isLabel := by cases s <;> rfl

@[simp] lemma target?_shell : s.shell.target? = s.target? := by cases s <;> rfl

@[simp] lemma jumpNode?_shell : s.shell.jumpNode? = s.jumpNode? := by simp [jumpNode?]

@[simp] lemma jumpSkip?_shell : s.shell.jumpSkip? = s.jumpSkip? := by simp [jumpSkip?]

@[simp] lemma jumpLabel?_shell : s.shell.jumpLabel? = s.jumpLabel? := by simp [jumpLabel?]

@[simp] lemma declaredLabels_shell : s.shell.declaredLabels = s.declaredLabels := by
  simp [declaredLabels]

@[simp] lemma condition?_shell : s.shell.condition? = s.condition? := by cases s <;> rfl

@[simp] lemma assignedVariable?_shell : s.shell.assignedVariable? = s.assignedVariable? := by
  simp [assignedVariable?]

@[simp] lemma shell_mapTags (f : Tags → Tags) : (s.mapTags f).shell = s.shell.mapTags f := by
  cases s <;> rfl

@[simp] lemma bodies_mapTags (f : Tags → Tags) : (s.mapTags f).bodies = s.bodies := by
  cases s <;> rfl

@[simp] lemma shell_jumpTo (name : Text) : (s.jumpTo name).shell = s.shell.jumpTo name := by
  cases s with
  | simple tags a => cases a <;> rfl
  | loop tags code body => rfl
  | choice tags c yes no => rfl

@[simp] lemma bodies_jumpTo (name : Text) : (s.jumpTo name).bodies = s.bodies := by
  cases s with
  | simple tags a => cases a <;> rfl
  | loop tags code body => rfl
  | choice tags c yes no => rfl

/-- A change to a nested body does not reach the shell. -/
@[simp] lemma shell_mapBranch (g : Body → Body) (branch : Nat) :
    (s.mapBranch g branch).shell = s.shell := by
  cases s with
  | simple tags a => cases branch <;> simp [mapBranch]
  | loop tags code body => cases branch <;> simp [mapBranch, shell]
  | choice tags c yes no =>
      obtain _ | _ | branch := branch
      · rfl
      · rfl
      · simp [mapBranch]

end Statement

/-! ### A statement changed at a position -/

namespace Body

/-- Lists that are put together, with one of them changed. -/
lemma forall₂_flatMap_modify {α β : Type} {R : β → β → Prop} (hrefl : ∀ b, R b b) (w : α → List β)
    (f : α → α) {l : List α} {i : Nat} {a : α} (ha : l[i]? = some a)
    (h : List.Forall₂ R (w a) (w (f a))) :
    List.Forall₂ R (l.flatMap w) ((List.modify l i f).flatMap w) := by
  have hsame : ∀ k : List β, List.Forall₂ R k k := fun k => List.forall₂_same.mpr fun b _ => hrefl b
  induction l generalizing i with
  | nil => cases ha
  | cons b l ih =>
      cases i with
      | zero =>
          obtain rfl := Option.some.inj ha
          rw [List.modify_zero_cons, List.flatMap_cons, List.flatMap_cons]
          exact List.rel_append h (hsame _)
      | succ i =>
          rw [List.modify_succ_cons, List.flatMap_cons, List.flatMap_cons]
          exact List.rel_append (hsame _) (ih ha)

/-- The visit of a body with a statement changed at a position: those around it have the same
shells. -/
lemma forall₂_walk_modify {R : Statement → Statement → Prop}
    (hshell : ∀ ⦃u v : Statement⦄, v.shell = u.shell → R u v) {f : Statement → Statement}
    {s : Statement} (hbodies : (f s).bodies = s.bodies) (hR : R s (f s)) {q : Position}
    {body : Body} (hs : get? body q = some s) :
    List.Forall₂ R (walk body) (walk (modify f q body)) := by
  have hrefl : ∀ u, R u u := fun u => hshell rfl
  induction q generalizing body with
  | here index =>
      rw [walk_eq_flatMap, walk_eq_flatMap]
      refine forall₂_flatMap_modify hrefl _ f hs ?_
      rw [Statement.walk_eq, Statement.walk_eq, hbodies]
      exact List.rel_append (List.forall₂_same.mpr fun u _ => hrefl u) (.cons hR .nil)
  | inside index branch r ih =>
      rw [get?] at hs
      obtain ⟨u, hu, hs⟩ := Option.bind_eq_some_iff.mp hs
      obtain ⟨inner, hinner, hs⟩ := Option.bind_eq_some_iff.mp hs
      rw [walk_eq_flatMap, walk_eq_flatMap]
      refine forall₂_flatMap_modify hrefl _ _ hu ?_
      rw [Statement.walk_eq, Statement.walk_eq, Statement.bodies_mapBranch]
      exact List.rel_append (forall₂_flatMap_modify hrefl _ _ hinner (ih hs))
        (.cons (hshell (Statement.shell_mapBranch u _ _)) .nil)

end Body

/-! ### Outlines -/

/-- The position of a site with the shell of its statement. -/
def Site.outline (x : Site) : Position × Statement := (x.position, x.statement.shell)

namespace Body

/-- The shells of a body with their positions, in the order of the visit. -/
def outline (body : Body) : List (Position × Statement) := (sites body).map Site.outline

/-- The outline of a body that is a branch of the statement at an index. -/
def outlineWithin (index branch : Nat) (body : Body) : List (Position × Statement) :=
  (outline body).map fun x => (.inside index branch x.1, x.2)

lemma map_outline_within (index branch : Nat) (body : Body) :
    ((sites body).map (Site.within index branch)).map Site.outline =
      outlineWithin index branch body := by
  simp only [outlineWithin, outline, List.map_map]
  rfl

/-- The outline of a statement is that of its bodies, and then its shell. -/
lemma map_outline_sites (index : Nat) (rest : Body) (s : Statement) :
    (s.sites index rest).map Site.outline =
      s.bodies.zipIdx.flatMap (fun b => outlineWithin index b.2 b.1) ++
        [(.here index, s.shell)] := by
  rw [Statement.sites_eq, List.map_append, nestedSites, List.map_flatMap]
  congr 1
  exact List.flatMap_congr fun b _ => map_outline_within index b.2 b.1

/-- The outline of what stands in a body is in its outline. -/
lemma mem_outline_iff {body : Body} {q : Position} {t : Statement} :
    (q, t) ∈ outline body ↔ ∃ s, get? body q = some s ∧ s.shell = t := by
  constructor
  · intro h
    obtain ⟨x, hx, heq⟩ := List.mem_map.mp h
    obtain ⟨rfl, rfl⟩ := Prod.mk.inj heq
    exact ⟨x.statement, (mem_sites_iff.mp hx).1, rfl⟩
  · rintro ⟨s, hs, rfl⟩
    exact List.mem_map.mpr ⟨_, exists_site hs, rfl⟩

/-- What a function reads off shells, it reads off the visit. -/
lemma flatMap_outline {β : Type} (f : Statement → List β) (hf : ∀ s, f s.shell = f s)
    (body : Body) : (outline body).flatMap (fun x => f x.2) = (walk body).flatMap f := by
  rw [walk_eq_map_sites, outline, List.flatMap_map, List.flatMap_map]
  exact List.flatMap_congr fun x _ => hf x.statement

end Body

/-! ### Visits of an outline -/

section Visit

variable {σ : Type}

/-- A visitor of statements that looks at their shells alone, and leaves their bodies as they
are. -/
structure Statement.IsShallow (visit : Statement → σ → Statement × σ) : Prop where
  bodies : ∀ s st, (visit s st).1.bodies = s.bodies
  shell : ∀ s st, visit s.shell st = ((visit s st).1.shell, (visit s st).2)

/-- Visits shells one after the other. -/
def visitAll (visit : Statement → σ → Statement × σ) :
    List (Position × Statement) → σ → List (Position × Statement) × σ
  | [], st => ([], st)
  | (q, s) :: rest, st =>
    let first := visit s st
    let further := visitAll visit rest first.2
    ((q, first.1) :: further.1, further.2)

lemma visitAll_append (visit : Statement → σ → Statement × σ) (k l : List (Position × Statement))
    (st : σ) : visitAll visit (k ++ l) st =
      ((visitAll visit k st).1 ++ (visitAll visit l (visitAll visit k st).2).1,
        (visitAll visit l (visitAll visit k st).2).2) := by
  induction k generalizing st with
  | nil => rfl
  | cons x k ih => simp only [List.cons_append, visitAll, ih]

/-- Where the shells stand does not matter to their visit. -/
lemma visitAll_map (visit : Statement → σ → Statement × σ) (f : Position → Position)
    (l : List (Position × Statement)) (st : σ) :
    visitAll visit (l.map fun x => (f x.1, x.2)) st =
      ((visitAll visit l st).1.map fun x => (f x.1, x.2), (visitAll visit l st).2) := by
  induction l generalizing st with
  | nil => rfl
  | cons x l ih => simp only [List.map_cons, visitAll, ih]

variable {visit : Statement → σ → Statement × σ}

/-- The outline of a body says also where its shells stand from outside. -/
lemma visitAll_outlineWithin {body body' : Body} {st st' : σ} (index branch : Nat)
    (h : Body.outline body' = (visitAll visit (Body.outline body) st).1 ∧
      st' = (visitAll visit (Body.outline body) st).2) :
    Body.outlineWithin index branch body' =
        (visitAll visit (Body.outlineWithin index branch body) st).1 ∧
      st' = (visitAll visit (Body.outlineWithin index branch body) st).2 := by
  rw [Body.outlineWithin, Body.outlineWithin, visitAll_map, h.1]
  exact ⟨rfl, h.2⟩

/-- A statement is visited behind its bodies: what its outline becomes, if `bodies` is what they
have become. -/
lemma outline_visit (hv : Statement.IsShallow visit) {index : Nat} {rest rest' : Body}
    {s t : Statement} (bodies : List (Position × Statement)) {st st' : σ}
    (hshell : t.shell = s.shell)
    (ht : t.bodies.zipIdx.flatMap (fun b => Body.outlineWithin index b.2 b.1) =
      (visitAll visit bodies st).1)
    (hs : s.bodies.zipIdx.flatMap (fun b => Body.outlineWithin index b.2 b.1) = bodies)
    (hst : st' = (visitAll visit bodies st).2) :
    ((visit t st').1.sites index rest').map Site.outline =
        (visitAll visit ((s.sites index rest).map Site.outline) st).1 ∧
      (visit t st').2 = (visitAll visit ((s.sites index rest).map Site.outline) st).2 := by
  rw [Body.map_outline_sites, Body.map_outline_sites, hv.bodies, ht, hs, visitAll_append, ← hst,
    visitAll, visitAll, ← hshell, hv.shell]
  exact ⟨rfl, rfl⟩

mutual

/-- A visit of a statement visits the outlines of its sites in their order. -/
lemma Statement.outline_edit (hv : Statement.IsShallow visit) (index : Nat) (rest rest' : Body) :
    ∀ (s : Statement) (st : σ),
      ((Statement.edit visit s st).1.sites index rest').map Site.outline =
          (visitAll visit ((s.sites index rest).map Site.outline) st).1 ∧
        (Statement.edit visit s st).2 =
          (visitAll visit ((s.sites index rest).map Site.outline) st).2
  | .simple tags a, st => outline_visit hv [] rfl rfl rfl rfl
  | .loop tags code body, st => by
      obtain ⟨hb, hbt⟩ := visitAll_outlineWithin index 0 (Body.outlineFrom_edit hv 0 body st)
      refine outline_visit hv (Body.outlineWithin index 0 body) rfl ?_ ?_ hbt
      · simpa [Statement.bodies] using hb
      · simp [Statement.bodies]
  | .choice tags c yes no, st => by
      obtain ⟨hy, hyt⟩ := visitAll_outlineWithin index 0 (Body.outlineFrom_edit hv 0 yes st)
      obtain ⟨hn, hnt⟩ := visitAll_outlineWithin index 1
        (Body.outlineFrom_edit hv 0 no (Body.edit visit yes st).2)
      refine outline_visit hv
        (Body.outlineWithin index 0 yes ++ Body.outlineWithin index 1 no) rfl ?_ ?_ ?_
      · simp [Statement.bodies, List.zipIdx_cons, visitAll_append, hy, hn, ← hyt]
      · simp [Statement.bodies, List.zipIdx_cons]
      · rw [visitAll_append, ← hyt]
        exact hnt

/-- A visit of statements visits the outlines of their sites in their order. -/
lemma Body.outlineFrom_edit (hv : Statement.IsShallow visit) (index : Nat) :
    ∀ (body : List Statement) (st : σ),
      (Body.sitesFrom index (Body.edit visit body st).1).map Site.outline =
          (visitAll visit ((Body.sitesFrom index body).map Site.outline) st).1 ∧
        (Body.edit visit body st).2 =
          (visitAll visit ((Body.sitesFrom index body).map Site.outline) st).2
  | [], st => ⟨rfl, rfl⟩
  | s :: rest, st => by
      obtain ⟨hs, hst⟩ := Statement.outline_edit hv index rest
        (Body.edit visit rest (Statement.edit visit s st).2).1 s st
      obtain ⟨hr, hrt⟩ :=
        Body.outlineFrom_edit hv (index + 1) rest (Statement.edit visit s st).2
      simp only [Body.edit, Body.sitesFrom, List.map_append, visitAll_append, hs, hr, hrt, ← hst]
      exact ⟨trivial, trivial⟩

end

/-- **A shallow visit is a visit of the outline**, and it leaves every statement at its place. -/
lemma Body.outline_edit (hv : Statement.IsShallow visit) (body : Body) (st : σ) :
    Body.outline (Body.edit visit body st).1 = (visitAll visit (Body.outline body) st).1 ∧
      (Body.edit visit body st).2 = (visitAll visit (Body.outline body) st).2 :=
  Body.outlineFrom_edit hv 0 body st

end Visit

end EventScript
