import EventScript.Proofs.Jump.Change
import EventScript.Proofs.Jump.Distance

/-!
Jumps over commands in one body: what replacing them by jumps to labels leaves behind.

The jumps of a body are replaced one after the other. On the way the body may grow by a statement
that does nothing, and statements are given labels, but none of that moves the place where a jump
lands, which depends on the kinds of the statements up to there alone.

* `Body.Kept`: the statements of a body stand at their indices again, changed;
* `Body.aimed`: one jump goes to a label of the statement on which it landed, and what then stands
  where;
* `Body.Labelled`: the invariant, for the indices still to be done;
* `Body.labelled_labelSkipAt`: one step keeps the invariant and cannot fail;
* `Body.labelled_labelSkipsAt`: a run keeps it and cannot fail.
-/

namespace EventScript

/-- The labels of the statements in a body, in the order of the visit. -/
def Body.labels (body : Body) : List Text := (Body.walk body).flatMap Statement.declaredLabels

/-- The labels of a statement and of the statements nested in it. -/
def Statement.labels (s : Statement) : List Text := s.walk.flatMap Statement.declaredLabels

/-! ### The labels of a body -/

namespace Statement

lemma labels_eq (s : Statement) : s.labels = s.bodies.flatMap Body.labels ++ s.declaredLabels := by
  rw [labels, walk_eq, List.flatMap_append, List.flatMap_assoc, List.flatMap_singleton]
  rfl

/-- A statement with the same bodies grows by its own labels alone. -/
lemma grows_labels {used used' : List Text} {s t : Statement} (hbodies : t.bodies = s.bodies)
    (h : Grows used used' s.declaredLabels t.declaredLabels) :
    Grows used used' s.labels t.labels := by
  rw [labels_eq, labels_eq, hbodies]
  exact (Grows.refl used _).append h

end Statement

/-- The statement that is put at the end of a body for a jump to land on. It does nothing and has
the label of that jump. -/
def Statement.bearer (name : Text) : Statement := .simple { labels := [name] } .noOp

namespace Body

lemma labels_eq_flatMap (body : Body) : labels body = body.flatMap Statement.labels := by
  rw [labels, walk_eq_flatMap, List.flatMap_assoc]
  rfl

lemma labels_cons (s : Statement) (rest : Body) : labels (s :: rest) = s.labels ++ labels rest := by
  rw [labels_eq_flatMap, labels_eq_flatMap, List.flatMap_cons]

lemma labels_append (body rest : Body) : labels (body ++ rest) = labels body ++ labels rest := by
  rw [labels_eq_flatMap, labels_eq_flatMap, labels_eq_flatMap, List.flatMap_append]

/-- The labels of a body grow by those of one statement. -/
lemma grows_set {used used' : List Text} {body : Body} {j : Nat} {s t : Statement}
    (hs : body[j]? = some s) (h : Grows used used' s.labels t.labels) :
    Grows used used' (labels body) (labels (body.set j t)) := by
  obtain ⟨hj, rfl⟩ := List.getElem?_eq_some_iff.mp hs
  have hold : body = body.take j ++ body[j] :: body.drop (j + 1) := by
    rw [← List.drop_eq_getElem_cons hj, List.take_append_drop]
  rw [List.set_eq_take_append_cons_drop, if_pos hj, labels_append, labels_cons]
  conv => enter [3]; rw [hold, labels_append, labels_cons]
  exact (Grows.refl used _).append (h.append (Grows.refl used' _))

/-- A jump to a label declares what the jump declared. -/
lemma labels_modify_jumpTo (body : Body) (i : Nat) (name : Text) :
    labels (List.modify body i (Statement.jumpTo name)) = labels body := by
  induction body generalizing i with
  | nil => rw [List.modify_nil]
  | cons s rest ih =>
      cases i with
      | zero =>
          rw [List.modify_zero_cons, labels_cons, labels_cons, Statement.labels_eq,
            Statement.labels_eq, Statement.bodies_jumpTo, Statement.declaredLabels_jumpTo]
      | succ i => rw [List.modify_succ_cons, labels_cons, labels_cons, ih]

/-! ### Changed bodies -/

/-- The statements of a body stand at their indices in another one, changed. -/
def Kept (body body' : Body) : Prop :=
  ∀ ⦃j : Nat⦄ ⦃s : Statement⦄, body[j]? = some s → ∃ t, body'[j]? = some t ∧ s.Change t

lemma Kept.trans {a b c : Body} (hab : Kept a b) (hbc : Kept b c) : Kept a c := by
  intro j s hs
  obtain ⟨t, ht, hst⟩ := hab hs
  obtain ⟨u, hu, htu⟩ := hbc ht
  exact ⟨u, hu, hst.trans htu⟩

lemma Kept.length_le {a b : Body} (h : Kept a b) : a.length ≤ b.length := by
  by_contra hlt
  rw [Nat.not_le] at hlt
  obtain ⟨t, ht, -⟩ := h (List.getElem?_eq_getElem hlt)
  rw [List.getElem?_eq_none (Nat.le_refl _)] at ht
  cases ht

/-- The kinds of the statements are as before. -/
lemma Kept.kinds_prefix {a b : Body} (h : Kept a b) (n : Nat) :
    (a.drop n).map Statement.kind <+: (b.drop n).map Statement.kind := by
  rw [List.prefix_iff_getElem?]
  intro j hj
  rw [List.length_map, List.length_drop] at hj
  have hs : a[n + j]? = some a[n + j] := List.getElem?_eq_getElem (by omega)
  obtain ⟨t, ht, hchange⟩ := h hs
  rw [List.getElem?_map, List.getElem?_drop, ht, List.getElem_map, List.getElem_drop,
    Option.map_some, Statement.kind, Statement.kind, hchange.isBlock, hchange.isCommand]

/-! ### One jump aimed at a label -/

/-- The body in which the statement `u` at the index `target` bears a label, and the jump at the
index `i` goes to this label. -/
def aimed (body : Body) (used : List Text) (i target : Nat) (u : Statement) : Body :=
  List.modify (body.set target (u.bearLabel "skip".toList used).1) i
    (Statement.jumpTo (u.bearLabel "skip".toList used).2.1)

section Aimed

variable {b : Body} (used : List Text) {i target : Nat} {t u : Statement}

lemma getElem?_aimed_jump (hne : target ≠ i) (ht : b[i]? = some t) :
    (aimed b used i target u)[i]? = some (t.jumpTo (u.bearLabel "skip".toList used).2.1) := by
  rw [aimed, List.getElem?_modify_eq, List.getElem?_set_ne hne, ht, Option.map_eq_map,
    Option.map_some]

lemma getElem?_aimed_target (hne : target ≠ i) (hu : b[target]? = some u) :
    (aimed b used i target u)[target]? = some (u.bearLabel "skip".toList used).1 := by
  rw [aimed, List.getElem?_modify_ne _ _ hne.symm,
    List.getElem?_set_self (List.getElem?_eq_some_iff.mp hu).1]

/-- At all other indices the body is as before. -/
lemma getElem?_aimed_of_ne {j : Nat} (hji : j ≠ i) (hjt : j ≠ target) :
    (aimed b used i target u)[j]? = b[j]? := by
  rw [aimed, List.getElem?_modify_ne _ _ hji.symm, List.getElem?_set_ne hjt.symm]

/-- A jump is aimed at a label if it had none before. -/
lemma kept_aimed (hne : target ≠ i) (ht : b[i]? = some t) (hlabel : t.jumpLabel? = none)
    (hu : b[target]? = some u) : Kept b (aimed b used i target u) := by
  intro j x hx
  by_cases hji : j = i
  · subst hji
    obtain rfl := Option.some.inj (ht.symm.trans hx)
    exact ⟨_, getElem?_aimed_jump used hne ht, .target _ .refl hlabel⟩
  · by_cases hjt : j = target
    · subst hjt
      obtain rfl := Option.some.inj (hu.symm.trans hx)
      exact ⟨_, getElem?_aimed_target used hne hu, u.change_bearLabel _ used⟩
    · exact ⟨x, by rw [getElem?_aimed_of_ne used hji hjt, hx], .refl⟩

/-- But for the jump, a statement stood at its index before, perhaps without its label. -/
lemma exists_of_getElem?_aimed (hne : target ≠ i) (hu : b[target]? = some u) {j : Nat}
    (hji : j ≠ i) {x : Statement} (hx : (aimed b used i target u)[j]? = some x) :
    ∃ y, b[j]? = some y ∧ (x = y ∨ x = (y.bearLabel "skip".toList used).1) := by
  by_cases hjt : j = target
  · subst hjt
    rw [getElem?_aimed_target used hne hu] at hx
    exact ⟨u, hu, Or.inr (Option.some.inj hx).symm⟩
  · rw [getElem?_aimed_of_ne used hji hjt] at hx
    exact ⟨x, hx, Or.inl rfl⟩

/-- The labels of the body grow by that of the statement at the target. -/
lemma grows_aimed (i : Nat) (hu : b[target]? = some u) :
    Grows used (u.bearLabel "skip".toList used).2.2 (labels b)
      (labels (aimed b used i target u)) := by
  rw [aimed, labels_modify_jumpTo]
  exact grows_set hu (Statement.grows_labels (u.change_bearLabel _ used).bodies
    (u.grows_bearLabel _ used))

/-- It does not matter whether a new statement has its label before it is put at the end. -/
lemma aimed_bearer (b : Body) (i : Nat) {name : Text}
    (hname : ((Statement.ofAction .noOp).bearLabel "skip".toList used).2.1 = name) :
    aimed (b ++ [.bearer name]) used i b.length (.bearer name) =
      aimed (b ++ [.ofAction .noOp]) used i b.length (.ofAction .noOp) := by
  subst hname
  refine congrArg (List.modify · i _) ?_
  rw [List.set_append_right _ _ (Nat.le_refl _), List.set_append_right _ _ (Nat.le_refl _),
    Nat.sub_self]
  rfl

end Aimed

/-! ### The invariant -/

/-- Every jump over commands in a body has a place to land. -/
def Resolvable (body : Body) : Prop :=
  ∀ ⦃j s commands⦄, body[j]? = some s → s.jumpSkip? = some commands →
    ∃ passed, distance commands (body.drop (j + 1)) = .ok passed

/-- What the jumps over commands of `body` have become in `body'`, but for those at the indices in
`todo`. -/
structure Labelled (body body' : Body) (todo : List Nat) : Prop where
  /-- Every statement stands at its index, changed. -/
  kept : Kept body body'
  /-- There is at most one statement more, which bears a label. -/
  added : ∀ ⦃j t⦄, body'[j]? = some t → body[j]? = none →
    j = body.length ∧ ∃ name, t = .bearer name
  /-- A jump that is done goes to a label of the statement on which it landed. -/
  lands : ∀ ⦃j s commands passed⦄, body[j]? = some s → s.jumpSkip? = some commands → j ∉ todo →
    distance commands (body.drop (j + 1)) = .ok passed → ∃ t u name,
      body'[j]? = some t ∧ t.jumpLabel? = some name ∧
        body'[j + 1 + passed]? = some u ∧ u.tags.labels.head? = some name
  /-- Any other jump goes where it went. -/
  waits : ∀ ⦃j s t⦄, body[j]? = some s → body'[j]? = some t → (s.jumpSkip? = none ∨ j ∈ todo) →
    t.target? = s.target?

/-- At the start all is to be done. -/
lemma labelled_self (body : Body) : Labelled body body (List.range body.length) where
  kept _ s hs := ⟨s, hs, .refl⟩
  added j t ht hnone := by
    rw [hnone] at ht
    cases ht
  lands j s commands passed hs _ hj _ := by
    obtain ⟨hlt, -⟩ := List.getElem?_eq_some_iff.mp hs
    exact absurd (List.mem_range.mpr hlt) hj
  waits j s t hs ht _ := by rw [Option.some.inj (hs.symm.trans ht)]

namespace Labelled

variable {body b : Body} {todo : List Nat} {i : Nat}

/-- An index where no jump over commands stands is done. -/
lemma skip_index (h : Labelled body b (i :: todo)) {s : Statement} (hs : body[i]? = some s)
    (hnone : s.jumpSkip? = none) : Labelled body b todo where
  kept := h.kept
  added := h.added
  lands j t commands passed ht hjump hj hd := by
    refine h.lands ht hjump (fun hmem => ?_) hd
    rcases List.mem_cons.mp hmem with rfl | hmem
    · rw [Option.some.inj (ht.symm.trans hs), hnone] at hjump
      cases hjump
    · exact hj hmem
  waits j t u ht hu hor := h.waits ht hu (hor.imp_right (List.mem_cons_of_mem i))

/-- A statement that bears a label may be put at the end, unless one was. -/
lemma push_bearer (h : Labelled body b todo) (hlength : b.length = body.length) (name : Text) :
    Labelled body (b ++ [.bearer name]) todo := by
  have hkeep : ∀ ⦃j : Nat⦄ ⦃t : Statement⦄, b[j]? = some t →
      (b ++ [.bearer name])[j]? = some t := by
    intro j t ht
    obtain ⟨hlt, -⟩ := List.getElem?_eq_some_iff.mp ht
    rwa [List.getElem?_append_left hlt]
  refine ⟨fun j s hs => ?_, fun j t ht hnone => ?_, fun j s commands passed hs hjump hj hd => ?_,
    fun j s t hs ht hor => ?_⟩
  · obtain ⟨t, ht, hchange⟩ := h.kept hs
    exact ⟨t, hkeep ht, hchange⟩
  · by_cases hlt : j < b.length
    · rw [List.getElem?_append_left hlt] at ht
      exact h.added ht hnone
    · have hj : j = b.length := by
        have := (List.getElem?_eq_some_iff.mp ht).1
        rw [List.length_append, List.length_singleton] at this
        omega
      rw [hj, List.getElem?_concat_length] at ht
      exact ⟨hj.trans hlength, name, (Option.some.inj ht).symm⟩
  · obtain ⟨t, u, name, ht, hname, hu, hhead⟩ := h.lands hs hjump hj hd
    exact ⟨t, u, name, hkeep ht, hname, hkeep hu, hhead⟩
  · obtain ⟨t', ht', -⟩ := h.kept hs
    rw [hkeep ht'] at ht
    obtain rfl := Option.some.inj ht
    exact h.waits hs ht' hor

/-- The target of a jump is given a label, and the jump goes there: the jump is done. -/
lemma redirect (used : List Text) (h : Labelled body b (i :: todo)) (hi : i ∉ todo)
    {s u : Statement} {commands passed : Nat} (hs : body[i]? = some s)
    (hjump : s.jumpSkip? = some commands)
    (hd : distance commands (body.drop (i + 1)) = .ok passed)
    (hu : b[i + 1 + passed]? = some u) :
    Labelled body (aimed b used i (i + 1 + passed) u) todo := by
  have hne : i + 1 + passed ≠ i := by omega
  obtain ⟨t, ht, -⟩ := h.kept hs
  have htarget : t.target? = some (.skip commands) := by
    rw [h.waits hs ht (Or.inr List.mem_cons_self), Statement.jumpSkip?_eq_some.mp hjump]
  have hlabel : t.jumpLabel? = none := by rw [Statement.jumpLabel?_eq, htarget]; rfl
  have hkept := kept_aimed used hne ht hlabel hu
  refine ⟨h.kept.trans hkept, fun j x hx hnone => ?_, fun j x commands' passed' hx hx' hj hd' => ?_,
    fun j x y hx hy hor => ?_⟩
  · have hji : j ≠ i := by
      rintro rfl
      rw [hs] at hnone
      cases hnone
    obtain ⟨y, hy, hor⟩ := exists_of_getElem?_aimed used hne hu hji hx
    obtain ⟨hj, name, rfl⟩ := h.added hy hnone
    exact ⟨hj, name, hor.elim id id⟩
  · by_cases hji : j = i
    · subst hji
      obtain rfl := Option.some.inj (hs.symm.trans hx)
      obtain rfl := Option.some.inj (hjump.symm.trans hx')
      obtain rfl : passed = passed' := Except.ok.inj (hd.symm.trans hd')
      refine ⟨_, _, _, getElem?_aimed_jump used hne ht, ?_, getElem?_aimed_target used hne hu,
        u.head?_labels_bearLabel _ used⟩
      rw [Statement.jumpLabel?_eq_some, Statement.target?_jumpTo, htarget, Option.map_some]
    · obtain ⟨v, w, name, hv, hname, hw, hhead⟩ := h.lands hx hx' (by simp [hji, hj]) hd'
      obtain ⟨v', hv', hvchange⟩ := hkept hv
      obtain ⟨w', hw', hwchange⟩ := hkept hw
      exact ⟨v', w', name, hv', hvchange.jumpLabel? hname, hw', hwchange.head?_labels hhead⟩
  · have hji : j ≠ i := by
      rintro rfl
      obtain rfl := Option.some.inj (hs.symm.trans hx)
      rcases hor with hnone | hmem
      · rw [hjump] at hnone
        cases hnone
      · exact hi hmem
    obtain ⟨z, hz, hyz⟩ := exists_of_getElem?_aimed used hne hu hji hy
    have hwaits := h.waits hx hz (hor.imp_right (List.mem_cons_of_mem i))
    rcases hyz with rfl | rfl
    · exact hwaits
    · rw [Statement.target?_bearLabel]
      exact hwaits

end Labelled

/-! ### Steps and runs -/

section Run

variable {body b : Body} {todo : List Nat} (used : List Text)

/-- **One step cannot fail**, and it keeps the invariant. -/
lemma labelled_labelSkipAt {i : Nat} (hres : Resolvable body) (h : Labelled body b (i :: todo))
    (hi : i ∉ todo) (hlt : i < body.length) :
    ∃ b' used', labelSkipAt b used i = .ok (b', used') ∧ Labelled body b' todo ∧
      Grows used used' (labels b) (labels b') := by
  have hs : body[i]? = some body[i] := List.getElem?_eq_getElem hlt
  obtain ⟨t, ht, -⟩ := h.kept hs
  have hskip : t.jumpSkip? = body[i].jumpSkip? := by
    rw [Statement.jumpSkip?, Statement.jumpSkip?, h.waits hs ht (Or.inr List.mem_cons_self)]
  rw [labelSkipAt, ht, Option.bind_some, hskip]
  cases hjump : body[i].jumpSkip? with
  | none => exact ⟨b, used, rfl, h.skip_index hs hjump, Grows.refl _ _⟩
  | some commands =>
      obtain ⟨passed, hd⟩ := hres hs hjump
      have hd' := distance_of_kinds_prefix (h.kept.kinds_prefix (i + 1)) commands hd
      have hle := distance_le commands _ hd
      rw [List.length_drop] at hle
      have hlength := h.kept.length_le
      simp only [landing, hd', bind, Except.bind]
      by_cases hend : i + 1 + passed = b.length
      · have hpush := h.push_bearer (by omega)
          ((Statement.ofAction .noOp).bearLabel "skip".toList used).2.1
        have hu : (b ++ [.ofAction .noOp])[i + 1 + passed]? = some (.ofAction .noOp) := by
          rw [hend, List.getElem?_concat_length]
        have hdone := hpush.redirect used hi hs hjump hd (by
          rw [hend, List.getElem?_concat_length])
        rw [hend, aimed_bearer used b i rfl, ← hend] at hdone
        have hlabels : labels (b ++ [.ofAction .noOp]) = labels b := by
          rw [labels_append]
          exact List.append_nil _
        rw [if_pos hend, hu, ← hlabels]
        exact ⟨_, _, rfl, hdone, grows_aimed used i hu⟩
      · obtain ⟨u, hu⟩ : ∃ u, b[i + 1 + passed]? = some u :=
          ⟨_, List.getElem?_eq_getElem (by omega)⟩
        rw [if_neg hend, hu]
        exact ⟨_, _, rfl, h.redirect used hi hs hjump hd hu, grows_aimed used i hu⟩

/-- **A run over the indices of a body cannot fail**, and at its end all jumps are done. -/
lemma labelled_labelSkipsAt (hres : Resolvable body) (h : Labelled body b todo)
    (hnodup : todo.Nodup) (hlt : ∀ i ∈ todo, i < body.length) :
    (labelSkipsAt todo b used).fault = none ∧
      Labelled body (labelSkipsAt todo b used).result [] ∧
      Grows used (labelSkipsAt todo b used).used (labels b)
        (labels (labelSkipsAt todo b used).result) := by
  induction todo generalizing b used with
  | nil => exact ⟨rfl, h, Grows.refl _ _⟩
  | cons i todo ih =>
      obtain ⟨hi, hnodup⟩ := List.nodup_cons.mp hnodup
      obtain ⟨b', used', heq, hstep, hgrows⟩ :=
        labelled_labelSkipAt used hres h hi (hlt i List.mem_cons_self)
      obtain ⟨hfault, hdone, hgrows'⟩ :=
        ih used' hstep hnodup fun j hj => hlt j (List.mem_cons_of_mem i hj)
      rw [labelSkipsAt, heq]
      exact ⟨hfault, hdone, hgrows.trans hgrows'⟩

end Run

end Body

end EventScript
