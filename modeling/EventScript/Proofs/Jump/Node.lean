import EventScript.Proofs.Jump.Change

/-!
Jumps to nodes: what replacing them by jumps to labels leaves behind.

The visit that gives out labels and the one that redirects the jumps are both shallow, so each is a
run over the outline of the body.

* `Body.Follows`: at every place of a body there stands afterwards what its statement was changed
  to;
* `follows_edit`, `grows_edit`: a visit of changes follows, and its new names are free;
* `exists_label_visitAll`: the label that a node is known by in the end is the first label of the
  first statement of that node;
* `Event.nodesLabelled_labelNodes`: every jump to a node goes to that label afterwards.
-/

namespace EventScript

/-- Every statement of `old` stands at its place in `new` again, changed. -/
def Body.Follows (old new : Body) : Prop :=
  ∀ ⦃q s⦄, Body.get? old q = some s → ∃ t, Body.get? new q = some t ∧ s.shell.Change t.shell

lemma Body.Follows.trans {a b c : Body} (hab : Body.Follows a b) (hbc : Body.Follows b c) :
    Body.Follows a c := by
  intro q s hs
  obtain ⟨t, ht, hst⟩ := hab hs
  obtain ⟨u, hu, htu⟩ := hbc ht
  exact ⟨u, hu, hst.trans htu⟩

/-! ### Visits of changes -/

section Visit

variable {σ : Type} {visit : Statement → σ → Statement × σ}

/-- Every shell is visited in some state. -/
lemma exists_visited {l : List (Position × Statement)} {q : Position} {s : Statement}
    (h : (q, s) ∈ l) (st : σ) : ∃ st', (q, (visit s st').1) ∈ (visitAll visit l st).1 := by
  induction l generalizing st with
  | nil => cases h
  | cons x l ih =>
      rw [visitAll]
      rcases List.mem_cons.mp h with rfl | h
      · exact ⟨st, List.mem_cons_self⟩
      · obtain ⟨st', hst'⟩ := ih h (visit x.2 st).2
        exact ⟨st', List.mem_cons_of_mem _ hst'⟩

/-- Whatever is there after a visit is a shell that was visited. -/
lemma exists_of_visited {l : List (Position × Statement)} {q : Position} {t : Statement} {st : σ}
    (h : (q, t) ∈ (visitAll visit l st).1) : ∃ s st', (q, s) ∈ l ∧ t = (visit s st').1 := by
  induction l generalizing st with
  | nil => cases h
  | cons x l ih =>
      rw [visitAll] at h
      rcases List.mem_cons.mp h with heq | h
      · obtain ⟨rfl, rfl⟩ := Prod.mk.inj heq
        exact ⟨x.2, st, List.mem_cons_self, rfl⟩
      · obtain ⟨s, st', hs, ht⟩ := ih h
        exact ⟨s, st', List.mem_cons_of_mem _ hs, ht⟩

/-- Where a statement stood there stands after a shallow visit what the visitor made of it. -/
lemma exists_get?_edit (hv : Statement.IsShallow visit) {body : Body} (st : σ) {q : Position}
    {s : Statement} (h : Body.get? body q = some s) :
    ∃ t st', Body.get? (Body.edit visit body st).1 q = some t ∧
      t.shell = (visit s.shell st').1 := by
  obtain ⟨st', hst'⟩ : ∃ st', (q, (visit s.shell st').1) ∈
      (visitAll visit (Body.outline body) st).1 :=
    exists_visited (Body.mem_outline_iff.mpr ⟨s, h, rfl⟩) st
  rw [← (Body.outline_edit hv body st).1] at hst'
  obtain ⟨t, ht, hshell⟩ := Body.mem_outline_iff.mp hst'
  exact ⟨t, st', ht, hshell⟩

/-- A shallow visit adds no statement. -/
lemma exists_get?_of_edit (hv : Statement.IsShallow visit) {body : Body} {st : σ} {q : Position}
    {t : Statement} (h : Body.get? (Body.edit visit body st).1 q = some t) :
    ∃ s st', Body.get? body q = some s ∧ t.shell = (visit s.shell st').1 := by
  have hmem := Body.mem_outline_iff.mpr ⟨t, h, rfl⟩
  rw [(Body.outline_edit hv body st).1] at hmem
  obtain ⟨u, st', hu, ht⟩ := exists_of_visited hmem
  obtain ⟨s, hs, rfl⟩ := Body.mem_outline_iff.mp hu
  exact ⟨s, st', hs, ht⟩

/-- A shallow visit of changes is followed. -/
lemma follows_edit (hv : Statement.IsShallow visit)
    (hc : ∀ (s : Statement) st, s.Change (visit s st).1) (body : Body) (st : σ) :
    Body.Follows body (Body.edit visit body st).1 := by
  intro q s hs
  obtain ⟨t, st', ht, hshell⟩ := exists_get?_edit hv st hs
  exact ⟨t, ht, hshell ▸ hc s.shell st'⟩

/-- The labels declared by shells that were visited grow with each of them. -/
lemma grows_visitAll (used : σ → List Text)
    (hg : ∀ s st, Grows (used st) (used (visit s st).2) s.declaredLabels
      (visit s st).1.declaredLabels) (l : List (Position × Statement)) (st : σ) :
    Grows (used st) (used (visitAll visit l st).2) (l.flatMap fun x => x.2.declaredLabels)
      ((visitAll visit l st).1.flatMap fun x => x.2.declaredLabels) := by
  induction l generalizing st with
  | nil => exact Grows.refl _ _
  | cons x l ih =>
      rw [visitAll, List.flatMap_cons, List.flatMap_cons]
      exact (hg x.2 st).append (ih (visit x.2 st).2)

/-- The labels declared in a body that is visited grow by new names. -/
lemma grows_edit (hv : Statement.IsShallow visit) (used : σ → List Text)
    (hg : ∀ s st, Grows (used st) (used (visit s st).2) s.declaredLabels
      (visit s st).1.declaredLabels) (body : Body) (st : σ) :
    Grows (used st) (used (Body.edit visit body st).2)
      ((Body.walk body).flatMap Statement.declaredLabels)
      ((Body.walk (Body.edit visit body st).1).flatMap Statement.declaredLabels) := by
  have h := grows_visitAll used hg (Body.outline body) st
  obtain ⟨hbody, hst⟩ := Body.outline_edit hv body st
  rw [← hbody, ← hst] at h
  rwa [Body.flatMap_outline _ Statement.declaredLabels_shell,
    Body.flatMap_outline _ Statement.declaredLabels_shell] at h

end Visit

/-! ### Labels for nodes -/

namespace NodeLabels

variable (targets : List Nat)

/-- What the visitor does: nothing, or it gives a label to a statement of a node that has none. -/
lemma visit_cases (s : Statement) (labels : NodeLabels) :
    (visit targets s labels = (s, labels) ∧
        ∀ n ∈ targets, s.tags.node = some n → (labels.names.lookup n).isSome) ∨
      ∃ n, s.tags.node = some n ∧ labels.names.lookup n = none ∧
        visit targets s labels =
          ((s.bearLabel "label".toList labels.used).1,
            ⟨(n, (s.bearLabel "label".toList labels.used).2.1) :: labels.names,
              (s.bearLabel "label".toList labels.used).2.2⟩) := by
  rw [visit]
  split
  · next hnone => exact Or.inl ⟨rfl, fun n _ hn => by rw [hnone] at hn; cases hn⟩
  · next n hnode =>
      split
      · next hif =>
          rw [Bool.and_eq_true, Option.isNone_iff_eq_none] at hif
          exact Or.inr ⟨n, hnode, hif.2, rfl⟩
      · next hif =>
          refine Or.inl ⟨rfl, fun m hm hn => ?_⟩
          obtain rfl := Option.some.inj (hnode.symm.trans hn)
          rw [Bool.and_eq_true, not_and, Option.isNone_iff_eq_none] at hif
          exact Option.isSome_iff_ne_none.mpr (hif (List.contains_iff_mem.mpr hm))

lemma isShallow_visit : Statement.IsShallow (visit targets) where
  bodies s labels := by
    rcases visit_cases targets s labels with ⟨h, -⟩ | ⟨n, -, -, h⟩
    · rw [h]
    · rw [h]
      exact (s.change_bearLabel _ _).bodies
  shell s labels := by
    rw [visit, visit, Statement.tags_shell]
    split
    · rfl
    · split
      · rw [Statement.bearLabel_shell]
      · rfl

lemma change_visit (s : Statement) (labels : NodeLabels) :
    s.Change (visit targets s labels).1 := by
  rcases visit_cases targets s labels with ⟨h, -⟩ | ⟨n, -, -, h⟩
  · rw [h]
    exact .refl
  · rw [h]
    exact s.change_bearLabel _ _

lemma grows_visit (s : Statement) (labels : NodeLabels) :
    Grows labels.used (visit targets s labels).2.used s.declaredLabels
      (visit targets s labels).1.declaredLabels := by
  rcases visit_cases targets s labels with ⟨h, -⟩ | ⟨n, -, -, h⟩
  · rw [h]
    exact Grows.refl _ _
  · rw [h]
    exact s.grows_bearLabel _ _

variable {targets}

/-- The label of a node is given out once. -/
lemma lookup_visitAll {labels : NodeLabels} {n : Nat} {name : Text}
    (h : labels.names.lookup n = some name) (l : List (Position × Statement)) :
    (visitAll (visit targets) l labels).2.names.lookup n = some name := by
  induction l generalizing labels with
  | nil => exact h
  | cons x l ih =>
      rw [visitAll]
      refine ih ?_
      rcases visit_cases targets x.2 labels with ⟨hv, -⟩ | ⟨m, -, hnone, hv⟩
      · rwa [hv]
      · have hne : n ≠ m := by
          rintro rfl
          rw [h] at hnone
          cases hnone
        rw [hv, List.lookup_cons, beq_false_of_ne hne]
        exact h

/-- **The label of a node is the first label of its first statement**, once all are visited. -/
lemma exists_label_visitAll (labels : NodeLabels) {n : Nat} (hn : n ∈ targets)
    (hnone : labels.names.lookup n = none) {l : List (Position × Statement)} {q : Position}
    {s : Statement} (hfirst : l.find? (fun x => x.2.tags.node == some n) = some (q, s)) :
    ∃ t name, (q, t) ∈ (visitAll (visit targets) l labels).1 ∧
      t.tags.labels.head? = some name ∧
      (visitAll (visit targets) l labels).2.names.lookup n = some name := by
  induction l generalizing labels with
  | nil => cases hfirst
  | cons x l ih =>
      rw [visitAll]
      rw [List.find?_cons] at hfirst
      split at hfirst
      · next hx =>
          have hnode : x.2.tags.node = some n := eq_of_beq hx
          obtain rfl := Option.some.inj hfirst
          rcases visit_cases targets s labels with ⟨-, hsome⟩ | ⟨m, hm, -, hv⟩
          · have := hsome n hn hnode
            rw [hnone] at this
            cases this
          · obtain rfl := Option.some.inj (hnode.symm.trans hm)
            refine ⟨_, (s.bearLabel "label".toList labels.used).2.1, List.mem_cons_self, ?_,
              lookup_visitAll ?_ l⟩
            · rw [hv]
              exact s.head?_labels_bearLabel _ _
            · rw [hv, List.lookup_cons, beq_self_eq_true]
      · next hx =>
          have hstill : (visit targets x.2 labels).2.names.lookup n = none := by
            rcases visit_cases targets x.2 labels with ⟨hv, -⟩ | ⟨m, hm, -, hv⟩
            · rwa [hv]
            · have hne : n ≠ m := by
                rintro rfl
                rw [hm, beq_self_eq_true] at hx
                cases hx
              rw [hv, List.lookup_cons, beq_false_of_ne hne]
              exact hnone
          obtain ⟨t, name, ht, hlabel, hlookup⟩ := ih _ hstill hfirst
          exact ⟨t, name, List.mem_cons_of_mem _ ht, hlabel, hlookup⟩

/-! ### Redirected jumps -/

variable (labels : NodeLabels) (s : Statement)

@[simp] lemma target?_visit (targets : List Nat) :
    (visit targets s labels).1.target? = s.target? := by
  rcases visit_cases targets s labels with ⟨h, -⟩ | ⟨n, -, -, h⟩
  · rw [h]
  · rw [h]
    exact s.target?_bearLabel _ _

lemma redirect_of_lookup {n : Nat} {name : Text} (hs : s.jumpNode? = some n)
    (hn : labels.names.lookup n = some name) : redirect labels s = s.jumpTo name := by
  rw [redirect, hs, Option.bind_some, hn]

lemma redirect_of_none (hs : s.jumpNode? = none) : redirect labels s = s := by
  rw [redirect, hs, Option.bind_none]

/-- The visitor redirects jumps to nodes alone. -/
lemma redirect_cases :
    redirect labels s = s ∨ ∃ n name, s.jumpNode? = some n ∧ redirect labels s = s.jumpTo name := by
  cases hs : s.jumpNode? with
  | none => exact Or.inl (redirect_of_none labels s hs)
  | some n =>
      cases hn : labels.names.lookup n with
      | none =>
          refine Or.inl ?_
          rw [redirect, hs, Option.bind_some, hn]
      | some name => exact Or.inr ⟨n, name, rfl, redirect_of_lookup labels s hs hn⟩

lemma isShallow_redirect :
    Statement.IsShallow fun t (_ : Unit) => (redirect labels t, ()) where
  bodies t _ := by
    rcases redirect_cases labels t with h | ⟨n, name, -, h⟩
    · rw [h]
    · rw [h, Statement.bodies_jumpTo]
  shell t _ := by
    cases ht : t.jumpNode?.bind fun n => labels.names.lookup n with
    | none => simp only [redirect, Statement.jumpNode?_shell, ht]
    | some name => simp only [redirect, Statement.jumpNode?_shell, ht, Statement.shell_jumpTo]

lemma change_redirect : s.Change (redirect labels s) := by
  rcases redirect_cases labels s with h | ⟨n, name, hs, h⟩
  · rw [h]
    exact .refl
  · rw [h]
    exact .target name .refl (Statement.jumpLabel?_of_jumpNode? hs)

@[simp] lemma declaredLabels_redirect :
    (redirect labels s).declaredLabels = s.declaredLabels := by
  rcases redirect_cases labels s with h | ⟨n, name, -, h⟩
  · rw [h]
  · rw [h, Statement.declaredLabels_jumpTo]

end NodeLabels

/-! ### The event afterwards -/

/-- The first site of a node, in the order of the visit. -/
def Event.firstOfNode? (e : Event) (n : Nat) : Option Site :=
  e.sites.find? fun x => x.statement.tags.node == some n

/-- What replacing the jumps to nodes of an event by jumps to labels leaves behind. -/
structure Event.NodesLabelled (e e' : Event) : Prop where
  /-- Every statement stands at its place, changed. -/
  follows : Body.Follows e.body e'.body
  /-- No statement stands at any other place. -/
  no_more : ∀ ⦃q t⦄, e'.get? q = some t → ∃ s, e.get? q = some s
  /-- The labels grow by new names. -/
  grows : Grows e.usedLabels e'.usedLabels e.declaredLabels e'.declaredLabels
  /-- A jump to a node goes to a label of the first statement of that node. -/
  lands : ∀ ⦃q s n⦄, e.get? q = some s → s.jumpNode? = some n → ∃ t x u name,
    e'.get? q = some t ∧ t.jumpLabel? = some name ∧ e.firstOfNode? n = some x ∧
      e'.get? x.position = some u ∧ u.tags.labels.head? = some name
  /-- Any other jump goes where it went. -/
  others : ∀ ⦃q s t⦄, e.get? q = some s → s.jumpNode? = none → e'.get? q = some t →
    t.target? = s.target?

namespace Event

/-- Without jumps to nodes nothing is to be done. -/
lemma nodesLabelled_self {e : Event} (h : e.jumpNodes = []) : e.NodesLabelled e where
  follows _ s hs := ⟨s, hs, .refl⟩
  no_more _ t ht := ⟨t, ht⟩
  grows := Grows.refl _ _
  lands q s n hs hn := by
    have hmem : n ∈ e.jumpNodes :=
      List.mem_filterMap.mpr ⟨s, Body.mem_walk_iff.mpr ⟨q, hs⟩, hn⟩
    rw [h] at hmem
    cases hmem
  others _ s t hs _ ht := by rw [Option.some.inj (hs.symm.trans ht)]

/-- If no node is missing, a node that is jumped to has a first site. -/
lemma exists_firstOfNode? {e : Event} (h : e.missingNode? = none) {n : Nat}
    (hn : n ∈ e.jumpNodes) : ∃ x, e.firstOfNode? n = some x := by
  have hnode := List.find?_eq_none.mp h n hn
  rw [Bool.not_eq_true, Bool.not_eq_false', List.contains_iff_mem, nodes, List.mem_filterMap]
    at hnode
  obtain ⟨s, hs, hsn⟩ := hnode
  obtain ⟨q, hq⟩ := Body.mem_walk_iff.mp hs
  refine Option.isSome_iff_exists.mp (List.find?_isSome.mpr ⟨_, Body.exists_site hq, ?_⟩)
  rw [hsn, beq_self_eq_true]

/-- The body with the labels given out for nodes, and these labels. -/
def nodeLabels (e : Event) : Body × NodeLabels :=
  Body.edit (NodeLabels.visit e.jumpNodes) e.body ⟨[], e.usedLabels⟩

/-- The event with the labels of nodes given out, and the jumps to nodes redirected. -/
def redirected (e : Event) : Event :=
  { e with body := Body.mapAll (NodeLabels.redirect e.nodeLabels.2) e.nodeLabels.1 }

lemma labelNodes_of_ne_nil {e : Event} (h : e.missingNode? = none) (hne : e.jumpNodes ≠ []) :
    e.labelNodes = ⟨e.redirected, none⟩ := by
  rw [labelNodes, h]
  simp only [List.isEmpty_iff, hne, if_false]
  rfl

/-- What stands in the redirected event: a statement that may have been given a label, with its jump
redirected. -/
lemma exists_get?_redirected {e : Event} {q : Position} {s : Statement} (h : e.get? q = some s) :
    ∃ t labels, e.redirected.get? q = some t ∧
      t.shell = NodeLabels.redirect e.nodeLabels.2
        (NodeLabels.visit e.jumpNodes s.shell labels).1 := by
  obtain ⟨t, labels, ht, hshell⟩ :=
    exists_get?_edit (NodeLabels.isShallow_visit e.jumpNodes) ⟨[], e.usedLabels⟩ h
  obtain ⟨u, -, hu, hushell⟩ :=
    exists_get?_edit (NodeLabels.isShallow_redirect e.nodeLabels.2) () ht
  exact ⟨u, labels, hu, by rw [hushell, hshell]⟩

lemma follows_redirected (e : Event) : Body.Follows e.body e.redirected.body :=
  (follows_edit (NodeLabels.isShallow_visit e.jumpNodes) (NodeLabels.change_visit e.jumpNodes)
      e.body _).trans
    (follows_edit (NodeLabels.isShallow_redirect e.nodeLabels.2)
      (fun s _ => NodeLabels.change_redirect e.nodeLabels.2 s) _ ())

lemma exists_get?_of_redirected {e : Event} {q : Position} {t : Statement}
    (h : e.redirected.get? q = some t) : ∃ s, e.get? q = some s := by
  obtain ⟨u, -, hu, -⟩ := exists_get?_of_edit (NodeLabels.isShallow_redirect e.nodeLabels.2) h
  obtain ⟨s, -, hs, -⟩ := exists_get?_of_edit (NodeLabels.isShallow_visit e.jumpNodes) hu
  exact ⟨s, hs⟩

/-- The labels grow by those given out for nodes. -/
lemma grows_redirected (e : Event) :
    Grows e.usedLabels e.nodeLabels.2.used e.declaredLabels e.redirected.declaredLabels :=
  (grows_edit (NodeLabels.isShallow_visit e.jumpNodes) NodeLabels.used
      (NodeLabels.grows_visit e.jumpNodes) e.body ⟨[], e.usedLabels⟩).trans
    (grows_edit (NodeLabels.isShallow_redirect e.nodeLabels.2) (fun _ => e.nodeLabels.2.used)
      (fun s _ => by rw [NodeLabels.declaredLabels_redirect]; exact Grows.refl _ _) _ ())

/-- A jump that goes to no node is left as it is. -/
lemma target?_redirected {e : Event} {q : Position} {s t : Statement} (hs : e.get? q = some s)
    (hnone : s.jumpNode? = none) (ht : e.redirected.get? q = some t) : t.target? = s.target? := by
  obtain ⟨u, labels, hu, hshell⟩ := exists_get?_redirected hs
  obtain rfl := Option.some.inj (ht.symm.trans hu)
  have hvisit : (NodeLabels.visit e.jumpNodes s.shell labels).1.jumpNode? = none := by
    rw [Statement.jumpNode?, NodeLabels.target?_visit, Statement.target?_shell,
      ← Statement.jumpNode?, hnone]
  rw [NodeLabels.redirect_of_none _ _ hvisit] at hshell
  rw [← Statement.target?_shell, hshell, NodeLabels.target?_visit, Statement.target?_shell]

/-- The first site of a node that is jumped to bears the label of the node. -/
lemma head?_labels_redirected {e : Event} {n : Nat} (hn : n ∈ e.jumpNodes) {x : Site}
    (hx : e.firstOfNode? n = some x) :
    ∃ u name, e.redirected.get? x.position = some u ∧ u.tags.labels.head? = some name ∧
      e.nodeLabels.2.names.lookup n = some name := by
  have hfirst : (Body.outline e.body).find? (fun y => y.2.tags.node == some n) =
      some (x.position, x.statement.shell) := by
    rw [Body.outline, List.find?_map]
    have hsame : (fun y : Position × Statement => y.2.tags.node == some n) ∘ Site.outline =
        fun y : Site => y.statement.tags.node == some n := by
      funext y
      simp [Site.outline]
    rw [hsame]
    exact congrArg (Option.map Site.outline) hx
  obtain ⟨t, name, ht, hlabel, hlookup⟩ := NodeLabels.exists_label_visitAll
    ⟨[], e.usedLabels⟩ hn rfl hfirst
  obtain ⟨hbody, hlabels⟩ := Body.outline_edit (NodeLabels.isShallow_visit e.jumpNodes) e.body
    ⟨[], e.usedLabels⟩
  rw [← hbody] at ht
  rw [← hlabels] at hlookup
  obtain ⟨u, hu, rfl⟩ := Body.mem_outline_iff.mp ht
  obtain ⟨v, hv, hchange⟩ := follows_edit (NodeLabels.isShallow_redirect e.nodeLabels.2)
    (fun s _ => NodeLabels.change_redirect e.nodeLabels.2 s) _ () hu
  refine ⟨v, name, hv, ?_, hlookup⟩
  have := hchange.head?_labels hlabel
  rwa [Statement.tags_shell] at this

/-- A jump to a node goes to a label of the first statement of that node. -/
lemma lands_redirected {e : Event} (h : e.missingNode? = none) {q : Position} {s : Statement}
    {n : Nat} (hs : e.get? q = some s) (hn : s.jumpNode? = some n) :
    ∃ t x u name, e.redirected.get? q = some t ∧ t.jumpLabel? = some name ∧
      e.firstOfNode? n = some x ∧ e.redirected.get? x.position = some u ∧
        u.tags.labels.head? = some name := by
  have hmem : n ∈ e.jumpNodes := List.mem_filterMap.mpr ⟨s, Body.mem_walk_iff.mpr ⟨q, hs⟩, hn⟩
  obtain ⟨x, hx⟩ := exists_firstOfNode? h hmem
  obtain ⟨u, name, hu, hname, hlookup⟩ := head?_labels_redirected hmem hx
  obtain ⟨t, labels, ht, hshell⟩ := exists_get?_redirected hs
  refine ⟨t, x, u, name, ht, ?_, hx, hu, hname⟩
  have hvisit : (NodeLabels.visit e.jumpNodes s.shell labels).1.jumpNode? = some n := by
    rw [Statement.jumpNode?, NodeLabels.target?_visit, Statement.target?_shell,
      ← Statement.jumpNode?, hn]
  rw [NodeLabels.redirect_of_lookup _ _ hvisit hlookup] at hshell
  rw [← Statement.jumpLabel?_shell, hshell, Statement.jumpLabel?_eq_some,
    Statement.target?_jumpTo, Statement.jumpNode?_eq_some.mp hvisit, Option.map_some]

/-- The names in use afterwards are those that were in use, and the labels given out. -/
lemma mem_usedLabels_redirected {e : Event} (h : e.missingNode? = none) (name : Text) :
    name ∈ e.redirected.usedLabels ↔ name ∈ e.nodeLabels.2.used := by
  obtain ⟨new, hperm, -, -, hused⟩ := e.grows_redirected
  constructor
  · intro hname
    rcases mem_usedLabels_iff.mp hname with hdecl | ⟨q, t, ht, hjump⟩
    · exact e.grows_redirected.subset (fun _ => mem_usedLabels_of_mem_declaredLabels) _ hdecl
    · obtain ⟨s, hs⟩ := exists_get?_of_redirected ht
      cases hn : s.jumpNode? with
      | some n =>
          obtain ⟨t', x, u, label, ht', hlabel, -, hu, hhead⟩ := lands_redirected h hs hn
          obtain rfl := Option.some.inj (ht.symm.trans ht')
          obtain rfl := Option.some.inj (hjump.symm.trans hlabel)
          have hdecl : name ∈ u.declaredLabels :=
            List.mem_append_left _ (List.mem_of_mem_head? hhead)
          exact e.grows_redirected.subset (fun _ => mem_usedLabels_of_mem_declaredLabels) _
            (mem_declaredLabels_iff.mpr ⟨_, u, hu, hdecl⟩)
      | none =>
          rw [Statement.jumpLabel?_eq, target?_redirected hs hn ht, ← Statement.jumpLabel?_eq]
            at hjump
          exact e.grows_redirected.mono (mem_usedLabels_iff.mpr (Or.inr ⟨q, s, hs, hjump⟩))
  · intro hname
    rcases (hused name).mp hname with hold | hnew
    · rcases mem_usedLabels_iff.mp hold with hdecl | ⟨q, s, hs, hjump⟩
      · exact mem_usedLabels_of_mem_declaredLabels
          (hperm.mem_iff.mpr (List.mem_append_left _ hdecl))
      · obtain ⟨t, ht, hchange⟩ := e.follows_redirected hs
        refine mem_usedLabels_iff.mpr (Or.inr ⟨q, t, ht, ?_⟩)
        rw [← Statement.jumpLabel?_shell]
        exact hchange.jumpLabel? (by rwa [Statement.jumpLabel?_shell])
    · exact mem_usedLabels_of_mem_declaredLabels
        (hperm.mem_iff.mpr (List.mem_append_right _ hnew))

/-- **Jumps to nodes become jumps to labels of their nodes**, and nothing else changes but that
statements are given labels. -/
theorem nodesLabelled_labelNodes {e : Event} (h : e.labelNodes.fault = none) :
    e.NodesLabelled e.labelNodes.event := by
  have hnone : e.missingNode? = none := by
    cases hm : e.missingNode? with
    | none => rfl
    | some n =>
        rw [labelNodes, hm] at h
        cases h
  by_cases hnil : e.jumpNodes = []
  · have heq : e.labelNodes = ⟨e, none⟩ := by
      rw [labelNodes, hnone, hnil]
      rfl
    rw [heq]
    exact nodesLabelled_self hnil
  · rw [labelNodes_of_ne_nil hnone hnil]
    obtain ⟨new, hperm, hnodup, hfree, hused⟩ := e.grows_redirected
    exact {
      follows := e.follows_redirected
      no_more := fun _ _ => exists_get?_of_redirected
      grows := ⟨new, hperm, hnodup, hfree,
        fun name => (mem_usedLabels_redirected hnone name).trans (hused name)⟩
      lands := fun _ _ _ => lands_redirected hnone
      others := fun _ _ _ => target?_redirected }

end Event

end EventScript
