import EventScript.Proofs.Jump.Landing

/-!
What resolving jumps leaves as it is.

An event with its jumps resolved is compared with the event as it was, statement by statement: its
shape is the same, and the only differences are the targets that became labels and the labels that
were added: one at most for each statement, and one at most for a statement put at the end of a
body.

* `Tags.ResolvesTo`, `Action.ResolvesTo`, `Statement.ResolvesTo`, `Body.ResolvesTo`: the comparison,
  with the list of the labels added;
* `Body.exists_resolvesTo`: it holds between bodies whose statements have followed each other;
* `Body.labels_perm`: the labels declared have grown by those in the list;
* `Body.labelSkips_eq_self`: without a jump over commands there is nothing to do;
* `Event.jumpsResolved_resolveJumps`: the comparison for events, names that no label had, and
  nothing left to resolve.
-/

namespace EventScript

/-! ### The comparison -/

/-- Tags are the same, or have one label where they had none. -/
inductive Tags.ResolvesTo (tags : Tags) : Tags → List Text → Prop
  | same : ResolvesTo tags tags []
  | label (name : Text) (h : tags.labels = []) :
      ResolvesTo tags { tags with labels := [name] } [name]

/-- An action is the same, or is a jump that has a label where it had none. -/
inductive Action.ResolvesTo : Action → Action → Prop
  | same (a : Action) : ResolvesTo a a
  | jump {target : Target} (h : target.label? = none) (c : Condition) (name : Text) :
      ResolvesTo (.jump target c) (.jump (.label name) c)

mutual

/-- A statement is the same, but for its tags, its target, and the bodies nested in it. -/
inductive Statement.ResolvesTo : Statement → Statement → List Text → Prop
  | simple {tags tags' : Tags} {a a' : Action} {added : List Text}
      (ht : tags.ResolvesTo tags' added) (ha : a.ResolvesTo a') :
      Statement.ResolvesTo (.simple tags a) (.simple tags' a') added
  | loop {tags tags' : Tags} {body body' : List Statement} {inner added : List Text} (code : Text)
      (hb : Body.ResolvesTo body body' inner) (ht : tags.ResolvesTo tags' added) :
      Statement.ResolvesTo (.loop tags code body) (.loop tags' code body') (inner ++ added)
  | choice {tags tags' : Tags} {yes yes' no no' : List Statement} {inner inner' added : List Text}
      (c : Condition) (hy : Body.ResolvesTo yes yes' inner) (hn : Body.ResolvesTo no no' inner')
      (ht : tags.ResolvesTo tags' added) :
      Statement.ResolvesTo (.choice tags c yes no) (.choice tags' c yes' no')
        ((inner ++ inner') ++ added)

/-- The statements of a body are the same in that sense, and at its end one that does nothing but
bear a label may be new. -/
inductive Body.ResolvesTo : List Statement → List Statement → List Text → Prop
  | nil : Body.ResolvesTo [] [] []
  | bearer (name : Text) : Body.ResolvesTo [] [.bearer name] [name]
  | cons {s t : Statement} {rest rest' : List Statement} {added further : List Text}
      (hs : Statement.ResolvesTo s t added) (h : Body.ResolvesTo rest rest' further) :
      Body.ResolvesTo (s :: rest) (t :: rest') (added ++ further)

end

/-! ### From changes at positions -/

namespace Statement

lemma eq_simple_of_shell {t : Statement} {tags : Tags} {a : Action}
    (h : t.shell = simple tags a) : t = simple tags a := by
  cases t with
  | simple tags' a' => exact h
  | loop tags' code body => cases h
  | choice tags' c yes no => cases h

lemma eq_loop_of_shell {t : Statement} {tags : Tags} {code : Text} {inner : Body}
    (h : t.shell = loop tags code inner) : ∃ body, t = loop tags code body := by
  cases t with
  | simple tags' a' => cases h
  | loop tags' code' body =>
      cases h
      exact ⟨body, rfl⟩
  | choice tags' c yes no => cases h

lemma eq_choice_of_shell {t : Statement} {tags : Tags} {c : Condition} {inner inner' : Body}
    (h : t.shell = choice tags c inner inner') : ∃ yes no, t = choice tags c yes no := by
  cases t with
  | simple tags' a' => cases h
  | loop tags' code body => cases h
  | choice tags' c' yes no =>
      cases h
      exact ⟨yes, no, rfl⟩

end Statement

/-- A label is given to tags that have none. -/
lemma Tags.ResolvesTo.give {tags tags' : Tags} {added : List Text}
    (h : tags.ResolvesTo tags' added) (hnone : tags'.labels = []) (name : Text) :
    tags.ResolvesTo { tags' with labels := [name] } [name] := by
  cases h with
  | same => exact .label name hnone
  | label name' _ => cases hnone

/-- A label is given to a jump that has none. -/
lemma Action.ResolvesTo.aim {a : Action} {target : Target} {c : Condition}
    (h : a.ResolvesTo (.jump target c)) (hnone : target.label? = none) (name : Text) :
    a.ResolvesTo (.jump (.label name) c) := by
  cases h with
  | same => exact .jump hnone c name
  | jump _ _ name' => cases hnone

namespace Statement.Change

/-- What a number of steps has made of a statement without bodies. -/
lemma of_simple {tags : Tags} {a : Action} {t : Statement} (h : (simple tags a).Change t) :
    ∃ tags' a' added, t = simple tags' a' ∧ tags.ResolvesTo tags' added ∧ a.ResolvesTo a' := by
  induction h with
  | refl => exact ⟨tags, a, [], rfl, .same, .same a⟩
  | label name _ hnone ih =>
      obtain ⟨tags', a', added, rfl, ht, ha⟩ := ih
      exact ⟨_, a', [name], rfl, ht.give hnone name, ha⟩
  | target name _ hnone ih =>
      obtain ⟨tags', a', added, rfl, ht, ha⟩ := ih
      by_cases hjump : ∃ target c, a' = .jump target c
      · obtain ⟨target, c, rfl⟩ := hjump
        exact ⟨tags', _, added, rfl, ht, ha.aim hnone name⟩
      · have hsame : (simple tags' a').jumpTo name = simple tags' a' := by
          cases a' with
          | jump target c => exact absurd ⟨target, c, rfl⟩ hjump
          | _ => rfl
        exact ⟨tags', a', added, hsame, ht, ha⟩

/-- What a number of steps has made of a loop. -/
lemma of_loop {tags : Tags} {code : Text} {body : Body} {t : Statement}
    (h : (loop tags code body).Change t) :
    ∃ tags' added, t = loop tags' code body ∧ tags.ResolvesTo tags' added := by
  induction h with
  | refl => exact ⟨tags, [], rfl, .same⟩
  | label name _ hnone ih =>
      obtain ⟨tags', added, rfl, ht⟩ := ih
      exact ⟨_, [name], rfl, ht.give hnone name⟩
  | target name _ _ ih =>
      obtain ⟨tags', added, rfl, ht⟩ := ih
      exact ⟨tags', added, rfl, ht⟩

/-- What a number of steps has made of a choice. -/
lemma of_choice {tags : Tags} {c : Condition} {yes no : Body} {t : Statement}
    (h : (choice tags c yes no).Change t) :
    ∃ tags' added, t = choice tags' c yes no ∧ tags.ResolvesTo tags' added := by
  induction h with
  | refl => exact ⟨tags, [], rfl, .same⟩
  | label name _ hnone ih =>
      obtain ⟨tags', added, rfl, ht⟩ := ih
      exact ⟨_, [name], rfl, ht.give hnone name⟩
  | target name _ _ ih =>
      obtain ⟨tags', added, rfl, ht⟩ := ih
      exact ⟨tags', added, rfl, ht⟩

end Statement.Change

/-- The position one place further on, as it is seen with a statement put in front of the body. -/
def Position.next : Position → Position
  | .here index => .here (index + 1)
  | .inside index branch rest => .inside (index + 1) branch rest

namespace Body

/-- The statements of a body stand at their positions in another one, changed, and any other one
there bears a label at the end of its body. -/
structure Grown (old new : Body) : Prop where
  follows : Follows old new
  added : ∀ ⦃q t⦄, get? new q = some t → get? old q = none →
    (∃ name, t = .bearer name) ∧ behind new q = []

@[simp] lemma get?_next (s : Statement) (rest : Body) (q : Position) :
    get? (s :: rest) q.next = get? rest q := by cases q <;> rfl

@[simp] lemma behind_next (s : Statement) (rest : Body) (q : Position) :
    behind (s :: rest) q.next = behind rest q := by cases q <;> rfl

namespace Grown

variable {s t : Statement} {rest rest' old new inner inner' : Body}

lemma tail (h : Grown (s :: rest) (t :: rest')) : Grown rest rest' where
  follows q u hu := by
    rw [← get?_next s] at hu
    obtain ⟨v, hv, hchange⟩ := h.follows hu
    exact ⟨v, (get?_next t rest' q).symm.trans hv, hchange⟩
  added q u hu hnone := by
    have hadded := h.added ((get?_next t rest' q).trans hu) ((get?_next s rest q).trans hnone)
    rwa [behind_next] at hadded

/-- A body nested in the first statement has grown too. -/
lemma nested (branch : Nat) (h : Grown (s :: rest) (t :: rest'))
    (hs : s.bodies[branch]? = some inner) (ht : t.bodies[branch]? = some inner') :
    Grown inner inner' := by
  have hold : ∀ r, get? (s :: rest) (.inside 0 branch r) = get? inner r := get?_inside rfl hs
  have hnew : ∀ r, get? (t :: rest') (.inside 0 branch r) = get? inner' r := get?_inside rfl ht
  constructor
  · intro r u hu
    obtain ⟨v, hv, hchange⟩ := h.follows ((hold r).trans hu)
    exact ⟨v, (hnew r).symm.trans hv, hchange⟩
  · intro r u hu hnone
    have hadded := h.added ((hnew r).trans hu) ((hold r).trans hnone)
    rwa [behind_inside rfl ht] at hadded

/-- The first statement of a body that has grown. -/
lemma exists_cons (h : Grown (s :: rest) new) :
    ∃ t rest', new = t :: rest' ∧ s.shell.Change t.shell := by
  obtain ⟨t, ht, hchange⟩ := h.follows (q := .here 0) rfl
  cases new with
  | nil => cases ht
  | cons t' rest' =>
      obtain rfl := Option.some.inj ht
      exact ⟨t', rest', rfl, hchange⟩

/-- What an empty body has grown to. -/
lemma nil_or_bearer (h : Grown [] new) : new = [] ∨ ∃ name, new = [.bearer name] := by
  cases new with
  | nil => exact Or.inl rfl
  | cons t rest =>
      obtain ⟨⟨name, rfl⟩, hrest⟩ := h.added (q := .here 0) rfl rfl
      obtain rfl : rest = [] := hrest
      exact Or.inr ⟨name, rfl⟩

end Grown

end Body

mutual

/-- A statement in front of others, as the body has grown. -/
lemma Statement.exists_resolvesTo {rest rest' : Body} : ∀ (s : Statement) {t : Statement},
    Body.Grown (s :: rest) (t :: rest') → ∃ added, s.ResolvesTo t added
  | .simple tags a, t, h => by
      obtain ⟨t', rest'', heq, hchange⟩ := h.exists_cons
      obtain ⟨rfl, rfl⟩ := List.cons.inj heq
      obtain ⟨tags', a', added, hshell, ht, ha⟩ := hchange.of_simple
      obtain rfl := Statement.eq_simple_of_shell hshell
      exact ⟨added, .simple ht ha⟩
  | .loop tags code body, t, h => by
      obtain ⟨t', rest'', heq, hchange⟩ := h.exists_cons
      obtain ⟨rfl, rfl⟩ := List.cons.inj heq
      obtain ⟨tags', added, hshell, ht⟩ := hchange.of_loop
      obtain ⟨body', rfl⟩ := Statement.eq_loop_of_shell hshell
      obtain ⟨inner, hb⟩ := Body.exists_resolvesTo body (h.nested 0 rfl rfl)
      exact ⟨inner ++ added, .loop code hb ht⟩
  | .choice tags c yes no, t, h => by
      obtain ⟨t', rest'', heq, hchange⟩ := h.exists_cons
      obtain ⟨rfl, rfl⟩ := List.cons.inj heq
      obtain ⟨tags', added, hshell, ht⟩ := hchange.of_choice
      obtain ⟨yes', no', rfl⟩ := Statement.eq_choice_of_shell hshell
      obtain ⟨inner, hy⟩ := Body.exists_resolvesTo yes (h.nested 0 rfl rfl)
      obtain ⟨inner', hn⟩ := Body.exists_resolvesTo no (h.nested 1 rfl rfl)
      exact ⟨(inner ++ inner') ++ added, .choice c hy hn ht⟩

/-- **A body that has grown** compares with what it was. -/
lemma Body.exists_resolvesTo : ∀ (old : List Statement) {new : List Statement},
    Body.Grown old new → ∃ added, Body.ResolvesTo old new added
  | [], new, h => by
      rcases h.nil_or_bearer with rfl | ⟨name, rfl⟩
      · exact ⟨[], .nil⟩
      · exact ⟨[name], .bearer name⟩
  | s :: rest, new, h => by
      obtain ⟨t, rest', rfl, -⟩ := h.exists_cons
      obtain ⟨added, hs⟩ := Statement.exists_resolvesTo s h
      obtain ⟨further, hrest⟩ := Body.exists_resolvesTo rest h.tail
      exact ⟨added ++ further, .cons hs hrest⟩

end

/-! ### The labels added -/

/-- Resolving changes nothing about the label that an action is the place of. -/
lemma Action.ResolvesTo.ownLabel? {a a' : Action} (h : a.ResolvesTo a') :
    a'.ownLabel? = a.ownLabel? := by
  cases h with
  | same => rfl
  | jump _ c name => rfl

/-- The labels of a statement, if its tags, the bodies nested in it and its own label are known to
have grown. -/
lemma Statement.labels_perm_of_tags {s t : Statement} (inner : List Text) {added : List Text}
    (ht : s.tags.ResolvesTo t.tags added)
    (hown : t.action?.bind Action.ownLabel? = s.action?.bind Action.ownLabel?)
    (hb : (t.bodies.flatMap Body.labels).Perm (s.bodies.flatMap Body.labels ++ inner)) :
    t.labels.Perm (s.labels ++ (inner ++ added)) := by
  have hdeclared : t.declaredLabels.Perm (s.declaredLabels ++ added) := by
    rw [declaredLabels, declaredLabels, hown]
    generalize t.tags = tags at ht
    cases ht with
    | same => rw [List.append_nil]
    | label name hnone =>
        rw [hnone, List.nil_append]
        exact List.perm_append_comm
  rw [labels_eq, labels_eq]
  exact (hb.append hdeclared).trans (perm_append_exchange _ _ _ _)

mutual

/-- The labels in a statement have grown by those added. -/
lemma Statement.labels_perm : ∀ {s t : Statement} {added : List Text},
    s.ResolvesTo t added → t.labels.Perm (s.labels ++ added)
  | .simple tags a, _, added, h => by
      cases h with
      | simple ht ha =>
          refine Statement.labels_perm_of_tags [] ht ha.ownLabel? ?_
          exact .refl _
  | .loop tags code body, _, _, h => by
      cases h with
      | loop _ hb ht =>
          refine Statement.labels_perm_of_tags _ ht rfl ?_
          simpa [Statement.bodies] using Body.labels_perm hb
  | .choice tags c yes no, _, _, h => by
      cases h with
      | choice _ hy hn ht =>
          refine Statement.labels_perm_of_tags _ ht rfl ?_
          have hboth := (Body.labels_perm hy).append (Body.labels_perm hn)
          simpa [Statement.bodies] using hboth.trans (perm_append_exchange _ _ _ _)

/-- The labels in a body have grown by those added. -/
lemma Body.labels_perm : ∀ {old new : List Statement} {added : List Text},
    Body.ResolvesTo old new added → (Body.labels new).Perm (Body.labels old ++ added)
  | [], _, _, h => by
      cases h with
      | nil => exact .refl _
      | bearer name => exact .refl _
  | s :: rest, _, _, h => by
      cases h with
      | cons hs hrest =>
          rw [Body.labels_cons, Body.labels_cons]
          exact ((Statement.labels_perm hs).append (Body.labels_perm hrest)).trans
            (perm_append_exchange _ _ _ _)

end

/-! ### Nothing left to resolve -/

namespace Body

/-- Where no statement of a body jumps over commands, its own jumps are left alone. -/
lemma labelSkipsAt_eq_self {body : Body} (h : ∀ s ∈ body, s.jumpSkip? = none) (used : List Text)
    (indices : List Nat) : labelSkipsAt indices body used = ⟨body, used, none⟩ := by
  induction indices with
  | nil => rfl
  | cons i indices ih =>
      have hnone : (body[i]?).bind Statement.jumpSkip? = none := by
        refine Option.bind_eq_none_iff.mpr ?_
        intro s hs
        exact h s (List.mem_of_getElem? hs)
      have hstep : labelSkipAt body used i = .ok (body, used) := by
        rw [labelSkipAt, hnone]
      rw [labelSkipsAt, hstep]
      exact ih

end Body

mutual

/-- A statement in which nothing jumps over commands is left alone. -/
lemma Statement.labelSkips_eq_self : ∀ (s : Statement) (used : List Text),
    (∀ t ∈ s.walk, t.jumpSkip? = none) → s.labelSkips used = ⟨s, used, none⟩
  | .simple tags a, used, _ => rfl
  | .loop tags code body, used, h => by
      have hbody := Body.labelSkips_eq_self body used fun t ht =>
        h t (List.mem_append_left _ ht)
      rw [Statement.labelSkips, hbody]
  | .choice tags c yes no, used, h => by
      have hyes := Body.labelSkips_eq_self yes used fun t ht =>
        h t (List.mem_append_left _ (List.mem_append_left _ ht))
      have hno := Body.labelSkips_eq_self no used fun t ht =>
        h t (List.mem_append_left _ (List.mem_append_right _ ht))
      simp only [Statement.labelSkips, hyes, hno]

/-- The statements of a body in which nothing jumps over commands are left alone. -/
lemma Body.labelInnerSkips_eq_self : ∀ (body : List Statement) (used : List Text),
    (∀ t ∈ Body.walk body, t.jumpSkip? = none) →
      Body.labelInnerSkips body used = ⟨body, used, none⟩
  | [], used, _ => rfl
  | s :: rest, used, h => by
      have hs := Statement.labelSkips_eq_self s used fun t ht => h t (List.mem_append_left _ ht)
      have hrest := Body.labelInnerSkips_eq_self rest used fun t ht =>
        h t (List.mem_append_right _ ht)
      simp only [Body.labelInnerSkips, hs, hrest]

/-- A body in which nothing jumps over commands is left alone. -/
lemma Body.labelSkips_eq_self : ∀ (body : List Statement) (used : List Text),
    (∀ t ∈ Body.walk body, t.jumpSkip? = none) →
      (Body.labelInnerSkips body used).thenOwn = ⟨body, used, none⟩
  | body, used, h => by
      rw [Body.labelInnerSkips_eq_self body used h]
      exact Body.labelSkipsAt_eq_self (fun s hs => h s (Body.mem_walk_of_mem hs)) used _

end

namespace Event

/-- **Where every jump goes to a label, there is nothing to resolve.** -/
lemma resolveJumps_eq_self {e : Event}
    (h : ∀ ⦃q s target⦄, e.get? q = some s → s.target? = some target →
      ∃ name, target = .label name) :
    e.resolveJumps = ⟨e, none⟩ := by
  have hlabel : ∀ s ∈ Body.walk e.body, s.jumpNode? = none ∧ s.jumpSkip? = none := by
    intro s hs
    obtain ⟨q, hq⟩ := Body.mem_walk_iff.mp hs
    cases htarget : s.target? with
    | none => simp [Statement.jumpNode?, Statement.jumpSkip?, htarget]
    | some target =>
        obtain ⟨name, rfl⟩ := h hq htarget
        simp [Statement.jumpNode?, Statement.jumpSkip?, htarget]
  have hnodes : e.jumpNodes = [] := List.filterMap_eq_nil_iff.mpr fun s hs => (hlabel s hs).1
  have hfirst : e.labelNodes = ⟨e, none⟩ := by simp [labelNodes, missingNode?, hnodes]
  have hskips : ∀ s ∈ Body.walk e.body, s.jumpSkip? = none := fun s hs => (hlabel s hs).2
  have hfault : Body.skipFault? e.body = none := by
    rw [Body.skipFault?_eq_findSome?_sitesFrom 0 e.body, List.findSome?_eq_none_iff]
    intro x hx
    have hx' : x.statement ∈ Body.walk e.body := by
      rw [Body.walk_eq_map_sitesFrom 0 e.body]
      exact List.mem_map_of_mem hx
    rw [Site.skipFault?, hskips _ hx', Option.bind_none]
  have hsecond : e.labelSkips = ⟨e, none⟩ := by
    have hbody := Body.labelSkips_eq_self e.body e.usedLabels hskips
    simp only [labelSkips, hfault, Body.labelSkips, hbody]
  rw [resolveJumps, hfirst]
  exact hsecond

/-- The first step changes nothing about an event but its body. -/
lemma exists_body_labelNodes (e : Event) :
    ∃ body, e.labelNodes.event = { e with body := body } := by
  rw [labelNodes]
  cases e.missingNode? with
  | some n => exact ⟨e.body, rfl⟩
  | none =>
      by_cases hnil : e.jumpNodes.isEmpty = true
      · simp only [if_pos hnil]
        exact ⟨e.body, rfl⟩
      · simp only [if_neg hnil]
        exact ⟨_, rfl⟩

/-- The second step changes nothing about an event but its body. -/
lemma exists_body_labelSkips (e : Event) :
    ∃ body, e.labelSkips.event = { e with body := body } := by
  rw [labelSkips]
  cases Body.skipFault? e.body with
  | some fault => exact ⟨e.body, rfl⟩
  | none => exact ⟨_, rfl⟩

/-- Both steps together change nothing about an event but its body. -/
lemma exists_body_resolveJumps (e : Event) :
    ∃ body, e.resolveJumps.event = { e with body := body } := by
  obtain ⟨body, hbody⟩ := e.exists_body_labelNodes
  by_cases hfault : e.labelNodes.fault = none
  · rw [e.resolveJumps_of_none hfault]
    obtain ⟨body', hbody'⟩ := e.labelNodes.event.exists_body_labelSkips
    exact ⟨body', by rw [hbody', hbody]⟩
  · rw [e.resolveJumps_of_fault hfault]
    exact ⟨body, hbody⟩

/-- `e'` is `e` with its jumps resolved, and with the labels in the list added for that. -/
structure JumpsResolved (e e' : Event) (added : List Text) : Prop where
  /-- Nothing changes but the body. -/
  event : e' = { e with body := e'.body }
  /-- In the body, jumps that had no label have one, statements that had no label may have one, and
  at the end of every body there may be a new statement. -/
  body : Body.ResolvesTo e.body e'.body added
  /-- The new labels are pairwise distinct. -/
  distinct : added.Nodup
  /-- No statement declared a new label before. -/
  undeclared : ∀ ⦃name⦄, name ∈ added → ∀ ⦃q s⦄, e.get? q = some s → name ∉ s.declaredLabels
  /-- No statement jumped to a new label before. -/
  unused : ∀ ⦃name⦄, name ∈ added → ∀ ⦃q s⦄, e.get? q = some s → s.target? ≠ some (.label name)
  /-- No new label is the name of a numbered one. -/
  unnumbered : ∀ ⦃name⦄, name ∈ added → Label.number? name = none
  /-- Every jump goes to a label. -/
  resolved : ∀ ⦃q s target⦄, e'.get? q = some s → s.target? = some target →
    ∃ name, target = .label name
  /-- There is nothing left to resolve. -/
  again : e'.resolveJumps = ⟨e', none⟩

/-- **Resolving jumps changes nothing but jumps and labels**, the new labels were in use nowhere,
and resolving once more changes nothing. -/
theorem jumpsResolved_resolveJumps {e : Event} (h : e.resolveJumps.fault = none) :
    ∃ added, e.JumpsResolved e.resolveJumps.event added := by
  obtain ⟨e₁, used, hn, hs, new, hperm, hnodup, hfree, -⟩ := exists_settled_steps h
  have hgrown : Body.Grown e.body e.resolveJumps.event.body :=
    ⟨hn.follows_settled hs, fun q t ht => added_of_none hn hs ht⟩
  obtain ⟨added, hbody⟩ := Body.exists_resolvesTo e.body hgrown
  -- The labels have grown by `added` and by `new`, so these are the same names.
  have hsame : added.Perm new :=
    (List.perm_append_left_iff e.declaredLabels).mp ((Body.labels_perm hbody).symm.trans hperm)
  have hunused : ∀ ⦃name⦄, name ∈ added → name ∉ e.usedLabels := by
    intro name hname
    exact Label.notMem_of_isFree (hfree name (hsame.mem_iff.mp hname))
  have hresolved : ∀ ⦃q s target⦄, e.resolveJumps.event.get? q = some s → s.target? = some target →
      ∃ name, target = .label name := fun q s target => eq_label_of_steps hn hs
  have hevent : e.resolveJumps.event = { e with body := e.resolveJumps.event.body } := by
    obtain ⟨body, hevent⟩ := e.exists_body_resolveJumps
    rw [hevent]
  refine ⟨added, hevent, hbody, hsame.nodup_iff.mpr hnodup, ?_, ?_, ?_, hresolved,
    resolveJumps_eq_self hresolved⟩
  · intro name hname q s hq hdeclared
    exact hunused hname
      (mem_usedLabels_of_mem_declaredLabels (mem_declaredLabels_iff.mpr ⟨q, s, hq, hdeclared⟩))
  · intro name hname q s hq htarget
    exact hunused hname
      (mem_usedLabels_iff.mpr (Or.inr ⟨q, s, hq, Statement.jumpLabel?_eq_some.mpr htarget⟩))
  · intro name hname
    have hisFree := hfree name (hsame.mem_iff.mp hname)
    rw [Label.isFree, Bool.and_eq_true] at hisFree
    exact Option.isNone_iff_eq_none.mp hisFree.2

/-- Two jumps whose wishes for a label are no names to give out: one is in use, the other is that of
a numbered label. -/
def contended : Event where
  body := [
    .simple {} (.jump (.node 1) .always),
    .simple {} (.jump (.label "on".toList) .always),
    .simple { node := some 1, labelHint := some "on".toList } (.jump (.node 2) .always),
    .simple { node := some 2, labelHint := some "L7".toList } (.jump (.skip 0) .always)]

/-- The jumps of `contended` are resolved. -/
theorem jumpsResolved_contended : contended.resolveJumps.fault = none ∧
    ∃ added, contended.JumpsResolved contended.resolveJumps.event added :=
  ⟨by decide, jumpsResolved_resolveJumps (by decide)⟩

end Event

end EventScript
