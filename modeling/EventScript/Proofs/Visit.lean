import Mathlib.Tactic.Common

/-!
Visits that change a tree, call by call.

A visitor is called with a node and a state, and what it returns takes the place of the node. It may
return anything, so what stands at a place when the visitor comes there depends on all calls before.

* `Places`: looking up and replacing the nodes of a tree at their places;
* `Visits`: a visitor called at some places, one after the other, with what it was given there;
* `recording`: the visitor that does the same and writes down what it is given;
* `IsVisit`: a function visits a tree as a listing of it does: the visitor is called at the places
  of the tree, in their order, and never where something was put before;
* `Visits.isVisit`: for that the outcome has to be that of calls at the places, and what is put at
  a place must show at and inside the place only.
-/

namespace EventScript

/-- A kind of tree with places for its nodes. -/
structure Places (τ π ν : Type) where
  /-- The node at a place. -/
  get? : τ → π → Option ν
  /-- The tree with another node at a place. -/
  set : π → ν → τ → τ

variable {τ τ' π π' ν κ σ : Type} {P : Places τ π ν} {visit : ν → σ → ν × σ}

/-- A visitor is called at places of a tree one after the other. It is given what stands there by
then, and what it returns is put there. -/
inductive Visits (P : Places τ π ν) (visit : ν → σ → ν × σ) :
    List π → τ → σ → List ν → τ → σ → Prop
  | done (t : τ) (s : σ) : Visits P visit [] t s [] t s
  | call {p : π} {ps : List π} {t t' : τ} {s s' : σ} {n : ν} {given : List ν}
      (hn : P.get? t p = some n)
      (h : Visits P visit ps (P.set p (visit n s).1 t) (visit n s).2 given t' s') :
      Visits P visit (p :: ps) t s (n :: given) t' s'

/-- The visitor that does the same and puts down what it is given. -/
def recording (visit : ν → σ → ν × σ) (n : ν) (s : σ × List ν) : ν × (σ × List ν) :=
  ((visit n s.1).1, ((visit n s.1).2, s.2 ++ [n]))

namespace Visits

variable {ps qs : List π} {t t' t'' : τ} {s s' s'' : σ} {given given' : List ν}

/-- One call. -/
lemma single {p : π} {n : ν} (hn : P.get? t p = some n) :
    Visits P visit [p] t s [n] (P.set p (visit n s).1 t) (visit n s).2 :=
  .call hn (.done _ _)

lemma append (h : Visits P visit ps t s given t' s') (h' : Visits P visit qs t' s' given' t'' s'') :
    Visits P visit (ps ++ qs) t s (given ++ given') t'' s'' := by
  induction h with
  | done t s => exact h'
  | call hn _ ih => exact .call hn (ih h')

/-- A tree visited as a part of another one, whose places have other names there. -/
lemma within {Q : Places τ' π' ν} (into : τ → τ') (f : π → π')
    (hget : ∀ t p, Q.get? (into t) (f p) = P.get? t p)
    (hset : ∀ t p n, Q.set (f p) n (into t) = into (P.set p n t))
    (h : Visits P visit ps t s given t' s') :
    Visits Q visit (ps.map f) (into t) s given (into t') s' := by
  induction h with
  | done t s => exact .done _ _
  | @call p ps t t' s s' n given hn _ ih =>
      refine .call ((hget t p).trans hn) ?_
      rw [hset]
      exact ih

/-- Calls at the same places give the same. -/
lemma unique (h : Visits P visit ps t s given t' s') (h' : Visits P visit ps t s given' t'' s'') :
    t' = t'' ∧ s' = s'' := by
  induction h generalizing given' with
  | done t s =>
      cases h'
      exact ⟨rfl, rfl⟩
  | @call p ps t t' s s' n given hn _ ih =>
      cases h' with
      | @call _ _ _ _ _ _ m given' hm hrest =>
          obtain rfl : n = m := Option.some.inj (hn.symm.trans hm)
          exact ih hrest

/-- Calls of a recording visitor are calls of the visitor, and they are what is put down. -/
lemma of_recording {r r' : σ × List ν} (h : Visits P (recording visit) ps t r given t' r') :
    Visits P visit ps t r.1 given t' r'.1 ∧ r'.2 = r.2 ++ given := by
  induction h with
  | done t r => exact ⟨.done _ _, (List.append_nil _).symm⟩
  | @call p ps t t' r r' n given hn _ ih =>
      obtain ⟨hvisits, hgiven⟩ := ih
      refine ⟨.call hn hvisits, ?_⟩
      rw [hgiven, recording, List.append_assoc, List.singleton_append]

/-- What nodes have beside the nodes inside them was there at first, if it shows at and inside a
place only what is put there. -/
lemma map_head {isInside : π → π → Prop} {head : ν → κ}
    (frame : ∀ t p q n, ¬ isInside q p → (P.get? (P.set p n t) q).map head = (P.get? t q).map head)
    (outside : ps.Pairwise fun p q => ¬ isInside q p) (h : Visits P visit ps t s given t' s') :
    given.map (fun n => some (head n)) = ps.map fun p => (P.get? t p).map head := by
  induction h with
  | done t s => rfl
  | @call p ps t t' s s' n given hn _ ih =>
      obtain ⟨hp, hps⟩ := List.pairwise_cons.mp outside
      have hframe : ∀ q ∈ ps, (P.get? (P.set p (visit n s).1 t) q).map head =
          (P.get? t q).map head := fun q hq => frame t p q _ (hp q hq)
      rw [List.map_cons, List.map_cons, hn, ih hps, List.map_congr_left hframe]
      rfl

end Visits

/-- **A function that changes a tree visits it as a listing of its nodes does.** The listing has a
node for each place of the tree. Whatever the visitor does with its state, and whatever it puts in
the place of a node, it is called once at each of these places, in the same order, and never at or
inside a place at which it has put something before. What it is given there is the node of the
listing, up to what was put inside it. -/
structure IsVisit (P : Places τ π ν) (isInside : π → π → Prop) (head : ν → κ) (ps : List π)
    (listing : List ν) (edit : ∀ σ : Type, (ν → σ → ν × σ) → τ → σ → τ × σ) (t : τ) : Prop where
  /-- The places are those of the nodes in the listing. -/
  listed : ps.map (P.get? t) = listing.map some
  /-- No place of the tree is left out. -/
  every : ∀ p, p ∈ ps ↔ P.get? t p ≠ none
  /-- A place is called behind all places inside it, and only once. -/
  outside : ps.Pairwise fun p q => ¬ isInside q p
  /-- The calls are at these places, and what they are given there is known. -/
  calls : ∀ {σ : Type} (visit : ν → σ → ν × σ) (s : σ), ∃ given,
    edit (σ × List ν) (recording visit) t (s, []) =
        ((edit σ visit t s).1, ((edit σ visit t s).2, given)) ∧
      given.map head = listing.map head ∧
        Visits P visit ps t s given (edit σ visit t s).1 (edit σ visit t s).2

/-- The calls of any visitor are known if its outcome is that of calls at the places. -/
lemma Visits.isVisit {isInside : π → π → Prop} {head : ν → κ} {ps : List π} {listing : List ν}
    {t : τ} {edit : ∀ σ : Type, (ν → σ → ν × σ) → τ → σ → τ × σ}
    (frame : ∀ t p q n, ¬ isInside q p → (P.get? (P.set p n t) q).map head = (P.get? t q).map head)
    (listed : ps.map (P.get? t) = listing.map some) (every : ∀ p, p ∈ ps ↔ P.get? t p ≠ none)
    (outside : ps.Pairwise fun p q => ¬ isInside q p)
    (h : ∀ {σ : Type} (visit : ν → σ → ν × σ) (s : σ), ∃ given,
      Visits P visit ps t s given (edit σ visit t s).1 (edit σ visit t s).2) :
    IsVisit P isInside head ps listing edit t := by
  refine { listed, every, outside, calls := fun {σ} visit s => ?_ }
  obtain ⟨given, hrecording⟩ := h (recording visit) (s, [])
  obtain ⟨given', hplain⟩ := h visit s
  obtain ⟨hvisits, hgiven⟩ := hrecording.of_recording
  obtain ⟨htree, hstate⟩ := hvisits.unique hplain
  refine ⟨given, ?_, ?_, ?_⟩
  · refine Prod.ext htree (Prod.ext hstate ?_)
    rw [hgiven, List.nil_append]
  · have hheads := hvisits.map_head frame outside
    have hlisting := congrArg (List.map (Option.map head)) listed
    rw [List.map_map, List.map_map] at hlisting
    refine (List.map_inj_right fun _ _ => Option.some.inj).mp ?_
    rw [List.map_map, List.map_map]
    exact hheads.trans hlisting
  · rw [← htree, ← hstate]
    exact hvisits

end EventScript
