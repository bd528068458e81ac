import EventScript.Proofs.Condition.Visited
import EventScript.Proofs.Statement.Moved
import EventScript.Proofs.Statement.Order

/-!
Visits of a body change it statement by statement.

The places of a body are the positions of its statements, in the order of its sites.

* `Body.map_shell_get?_modify`: what is put at a position shows at and inside it only;
* `Body.isVisit_edit`: a visit that may change the body visits its positions, as the one that does
  not;
* `edit_visits_walk`: visits of conditions and of bodies, whatever the visitor does, and the same
  outcome in both directions for a visitor of conditions that looks at no state.
-/

namespace EventScript

/-- A position that holds another one is not visited before it. -/
lemma Position.not_holds_of_precedes {p q : Position} (h : p.Precedes q) : ¬ p.holds q := by
  induction p generalizing q with
  | here i =>
      cases q with
      | here j =>
          have hlt : i < j := h
          simpa [holds] using hlt.ne
      | inside j branch q =>
          have hlt : i < j := h
          simpa [holds] using hlt.ne
  | inside i branch p ih =>
      cases q with
      | here j => simp [holds]
      | inside j branch' q =>
          obtain hlt | ⟨rfl, hlt | ⟨rfl, h⟩⟩ := h
          · simp [holds, hlt.ne]
          · simp [holds, hlt.ne]
          · simpa [holds] using ih h

namespace Body

/-- The statements of a body, by positions. -/
def places : Places Body Position Statement := ⟨get?, fun p s => modify (fun _ => s) p⟩

/-! ### The positions -/

/-- What is put at a position shows only there and inside it, and in the bodies of what it is
inside of. -/
lemma map_shell_get?_modify (body : Body) (p q : Position) (s : Statement) (h : ¬ p.holds q) :
    (get? (modify (fun _ => s) p body) q).map Statement.shell =
      (get? body q).map Statement.shell := by
  induction p generalizing body q with
  | here i =>
      cases q with
      | here j =>
          have hne : i ≠ j := by simpa [Position.holds] using h
          rw [get?, get?, modify, List.getElem?_modify_ne _ _ hne]
      | inside j branch q =>
          have hne : i ≠ j := by simpa [Position.holds] using h
          rw [get?, get?, modify, List.getElem?_modify_ne _ _ hne]
  | inside i branch p ih =>
      cases q with
      | here j =>
          rw [get?, get?, modify]
          by_cases hij : i = j
          · subst hij
            rw [List.getElem?_modify_eq, Option.map_eq_map, Option.map_map]
            exact congrArg (Option.map · _) (funext fun t => Statement.shell_mapBranch t _ _)
          · rw [List.getElem?_modify_ne _ _ hij]
      | inside j branch' q =>
          rw [get?, get?, modify]
          by_cases hij : i = j
          · subst hij
            rw [List.getElem?_modify_eq, Option.map_eq_map, Option.bind_map, Option.map_bind,
              Option.map_bind]
            refine congrArg _ (funext fun t => ?_)
            rw [Function.comp_apply, Function.comp_apply, Function.comp_apply,
              Statement.bodies_mapBranch]
            by_cases hbranch : branch = branch'
            · subst hbranch
              rw [List.getElem?_modify_eq, Option.map_eq_map, Option.bind_map, Option.map_bind,
                Option.map_bind]
              refine congrArg _ (funext fun inner => ih inner q ?_)
              simpa [Position.holds] using h
            · rw [List.getElem?_modify_ne _ _ hbranch]
          · rw [List.getElem?_modify_ne _ _ hij]

/-- The positions of the sites are those of the statements that are visited. -/
lemma map_get?_positions (body : Body) :
    ((sites body).map Site.position).map (get? body) = (walk body).map some := by
  rw [walk_eq_map_sites, List.map_map, List.map_map]
  exact List.map_congr_left fun x hx => (mem_sites_iff.mp hx).1

/-- The positions of the sites are where a statement is found. -/
lemma mem_positions_iff {body : Body} {p : Position} :
    p ∈ (sites body).map Site.position ↔ get? body p ≠ none := by
  rw [List.mem_map, Option.ne_none_iff_exists']
  constructor
  · rintro ⟨x, hx, rfl⟩
    exact ⟨x.statement, (mem_sites_iff.mp hx).1⟩
  · rintro ⟨s, hs⟩
    exact ⟨_, exists_site hs, rfl⟩

/-- No position holds one that comes later, and none comes twice. -/
lemma pairwise_positions (body : Body) :
    ((sites body).map Site.position).Pairwise fun p q => ¬ p.holds q :=
  List.pairwise_map.mpr ((pairwise_sites body).imp Position.not_holds_of_precedes)

end Body

/-! ### The calls -/

section Calls

variable {σ : Type} (visit : Statement → σ → Statement × σ)

/-- The visitor is called with a statement of a body. -/
lemma Statement.visits_here (front back : Body) (s : Statement) (st : σ) :
    Visits Body.places visit [.here front.length] (front ++ s :: back) st [s]
      (front ++ (visit s st).1 :: back) (visit s st).2 := by
  have hget : Body.places.get? (front ++ s :: back) (.here front.length) = some s := by
    simp [Body.places, Body.get?]
  have hset : Body.places.set (.here front.length) (visit s st).1 (front ++ s :: back) =
      front ++ (visit s st).1 :: back := by
    simp [Body.places, Body.modify, List.modify_eq_set_getElem?]
  rw [← hset]
  exact .single hget

/-- A branch of a statement is visited as a body of its own. -/
lemma Statement.visits_branch {ps : List Position} {st st' : σ} {given : List Statement}
    {inner inner' : Body} (branch : Nat) (into : Body → Statement) (front back : Body)
    (hbody : ∀ inner, (into inner).bodies[branch]? = some inner)
    (hmap : ∀ inner f, (into inner).mapBranch f branch = into (f inner))
    (h : Visits Body.places visit ps inner st given inner' st') :
    Visits Body.places visit (ps.map (Position.inside front.length branch))
      (front ++ into inner :: back) st given (front ++ into inner' :: back) st' := by
  refine Visits.within (P := Body.places) (Q := Body.places)
    (fun inner => front ++ into inner :: back) (Position.inside front.length branch) ?_ ?_ h
  · intro inner p
    simp [Body.places, Body.get?, hbody]
  · intro inner p s
    simp [Body.places, Body.modify, List.modify_eq_set_getElem?, hmap]

/-- The positions of sites, seen from around. -/
lemma Body.map_position_within (index branch : Nat) (xs : List Site) :
    (xs.map (Site.within index branch)).map Site.position =
      (xs.map Site.position).map (Position.inside index branch) := by
  rw [List.map_map, List.map_map]
  rfl

mutual

/-- A visit of a statement calls the visitor at the positions of its sites. -/
lemma Statement.exists_visits_edit (front back rest : Body) : ∀ (s : Statement) (st : σ), ∃ given,
    Visits Body.places visit ((s.sites front.length rest).map Site.position) (front ++ s :: back)
      st given (front ++ (s.edit visit st).1 :: back) (s.edit visit st).2
  | .simple tags a, st => ⟨_, Statement.visits_here visit front back (.simple tags a) st⟩
  | .loop tags code body, st => by
      obtain ⟨given, hbody⟩ := Body.exists_visits_editFrom body [] st
      have hbranch := Statement.visits_branch visit 0 (Statement.loop tags code) front back
        (fun _ => rfl) (fun _ _ => rfl) hbody
      rw [Statement.sites, List.map_append, Body.map_position_within]
      exact ⟨_, hbranch.append (Statement.visits_here visit front back _ _)⟩
  | .choice tags c yes no, st => by
      obtain ⟨given, hyes⟩ := Body.exists_visits_editFrom yes [] st
      obtain ⟨given', hno⟩ := Body.exists_visits_editFrom no [] (Body.edit visit yes st).2
      have hfirst := Statement.visits_branch visit 0 (Statement.choice tags c · no) front back
        (fun _ => rfl) (fun _ _ => rfl) hyes
      have hsecond := Statement.visits_branch visit 1
        (Statement.choice tags c (Body.edit visit yes st).1) front back (fun _ => rfl)
        (fun _ _ => rfl) hno
      rw [Statement.sites, List.map_append, List.map_append, Body.map_position_within,
        Body.map_position_within]
      exact ⟨_, (hfirst.append hsecond).append (Statement.visits_here visit front back _ _)⟩

/-- A visit of statements behind others calls the visitor at the positions of their sites. -/
lemma Body.exists_visits_editFrom : ∀ (body : List Statement) (front : Body) (st : σ), ∃ given,
    Visits Body.places visit ((Body.sitesFrom front.length body).map Site.position) (front ++ body)
      st given (front ++ (Body.edit visit body st).1) (Body.edit visit body st).2
  | [], front, st => ⟨_, .done _ _⟩
  | s :: rest, front, st => by
      obtain ⟨given, hs⟩ := Statement.exists_visits_edit front rest rest s st
      obtain ⟨given', hrest⟩ := Body.exists_visits_editFrom rest
        (front ++ [(s.edit visit st).1]) (s.edit visit st).2
      rw [List.length_append, List.length_singleton, List.append_assoc, List.singleton_append,
        List.append_assoc, List.singleton_append] at hrest
      rw [Body.sitesFrom, List.map_append]
      exact ⟨_, hs.append hrest⟩

end

end Calls

/-- **A visit that changes a body is a visit of it.** The visitor is called at the positions of the
body, in the order in which its statements are visited when nothing is changed. -/
theorem Body.isVisit_edit (body : Body) :
    IsVisit places (fun q p => p.holds q) Statement.shell ((sites body).map Site.position)
      (walk body) (fun _ visit => edit visit) body :=
  Visits.isVisit map_shell_get?_modify (map_get?_positions body) (fun _ => mem_positions_iff)
    (pairwise_positions body) (fun visit st => Body.exists_visits_editFrom visit body [] st)

/-- **Visits that change what they see visit what there was.** In a condition, in either direction,
and in a body, a visitor with any state that puts anything in the place of what it is given is
called once at each place, in the order of the visit that changes nothing, and never where something
was put. The two directions make the same of a condition if what is put in the place of a condition
depends on nothing else. -/
theorem edit_visits_walk :
    (∀ (dir : Direction) (c : Condition),
      IsVisit Condition.places (fun q p => p <+: q) Condition.shell (c.addresses dir) (c.walk dir)
        (fun _ visit => Condition.edit dir visit) c) ∧
      (∀ body : Body,
        IsVisit Body.places (fun q p => p.holds q) Statement.shell
          ((Body.sites body).map Site.position) (Body.walk body)
          (fun _ visit => Body.edit visit) body) ∧
        ∀ {σ : Type} (f : Condition → Condition) (g : Condition → σ → σ) (c : Condition)
          (st st' : σ), (c.edit .forward (fun d st => (f d, g d st)) st).1 =
            (c.edit .backward (fun d st => (f d, g d st)) st').1 :=
  ⟨Condition.isVisit_edit, Body.isVisit_edit,
    fun f g c st st' => Condition.edit_stateless f g .forward .backward c st st'⟩

end EventScript
