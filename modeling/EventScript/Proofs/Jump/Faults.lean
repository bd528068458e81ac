import EventScript.Proofs.Jump.Nesting

/-!
When resolving jumps fails, and what it leaves behind.

A fault is always that of the first jump that has one, in the order of the visit, and each of the
two steps changes either all of its jumps or nothing.

* `Event.nodeFault?`, `Site.skipFault?`: the fault of a jump, from the nodes of the event and from
  the commands behind the jump;
* `Body.skipFault?_eq_findSome?_sitesFrom`: the check of jumps over commands meets the first of
  these faults;
* `Event.AllOrNothing`: the faults of both steps, and the event that they leave behind;
* `Event.allOrNothing`: resolving the jumps of any event keeps to that.
-/

namespace EventScript

/-! ### The fault of a jump -/

/-- The fault of a jump to a node by which no statement of the event is known. -/
def Event.nodeFault? (e : Event) (x : Site) : Option Fault :=
  x.statement.jumpNode?.bind fun n =>
    if e.sites.any fun y => y.statement.tags.node == some n then none
    else some (.unresolvedNode n)

/-- The fault of a jump over more commands than stand in front of the first block or the end of the
body, whichever comes first. -/
def Site.skipFault? (x : Site) : Option Fault :=
  x.statement.jumpSkip?.bind fun commands =>
    if Body.commandsAhead x.behind < commands then
      some (.unresolvedSkip commands (Body.obstacle x.behind))
    else none

lemma Event.nodeFault?_ne_none_iff {e : Event} {x : Site} :
    e.nodeFault? x ≠ none ↔ ∃ n, x.statement.target? = some (.node n) ∧
      ∀ q s, e.get? q = some s → s.tags.node ≠ some n := by
  have hany : ∀ n, (e.sites.any fun y => y.statement.tags.node == some n) = true ↔
      ∃ q s, e.get? q = some s ∧ s.tags.node = some n := by
    intro n
    simp only [List.any_eq_true, beq_iff_eq]
    constructor
    · rintro ⟨y, hy, hn⟩
      exact ⟨y.position, y.statement, (Body.mem_sites_iff.mp hy).1, hn⟩
    · rintro ⟨q, s, hs, hn⟩
      exact ⟨_, Body.exists_site hs, hn⟩
  rw [nodeFault?]
  constructor
  · intro h
    obtain ⟨n, hn⟩ : ∃ n, x.statement.jumpNode? = some n := by
      cases hn : x.statement.jumpNode? with
      | none => exact absurd (by rw [hn, Option.bind_none]) h
      | some n => exact ⟨n, rfl⟩
    refine ⟨n, Statement.jumpNode?_eq_some.mp hn, fun q s hs hnode => h ?_⟩
    rw [hn, Option.bind_some, if_pos ((hany n).mpr ⟨q, s, hs, hnode⟩)]
  · rintro ⟨n, hn, hno⟩
    rw [Statement.jumpNode?_eq_some.mpr hn, Option.bind_some, if_neg]
    · exact Option.some_ne_none _
    · intro h
      obtain ⟨q, s, hs, hnode⟩ := (hany n).mp h
      exact hno q s hs hnode

lemma Site.skipFault?_ne_none_iff {x : Site} :
    x.skipFault? ≠ none ↔ ∃ commands, x.statement.target? = some (.skip commands) ∧
      Body.commandsAhead x.behind < commands := by
  rw [skipFault?]
  cases hk : x.statement.jumpSkip? with
  | none =>
      refine ⟨fun h => absurd rfl h, ?_⟩
      rintro ⟨commands, ht, -⟩
      rw [Statement.jumpSkip?_eq_some.mpr ht] at hk
      cases hk
  | some commands =>
      have ht := Statement.jumpSkip?_eq_some.mp hk
      rw [Option.bind_some]
      constructor
      · intro h
        refine ⟨commands, ht, ?_⟩
        by_contra hlt
        rw [if_neg hlt] at h
        exact h rfl
      · rintro ⟨commands', ht', hlt⟩
        obtain rfl : commands = commands' := by
          rw [ht] at ht'
          injection ht' with ht'
          injection ht'
        rw [if_pos hlt]
        exact Option.some_ne_none _

/-! ### The checks -/

/-- Searching the results of a partial function for a fault. -/
lemma map_find?_filterMap {α β γ : Type} (f : α → Option β) (p : β → Bool) (g : β → γ)
    (l : List α) : ((l.filterMap f).find? p).map g =
      l.findSome? fun a => (f a).bind fun b => if p b then some (g b) else none := by
  induction l with
  | nil => rfl
  | cons a l ih =>
      rw [List.findSome?_cons]
      cases hf : f a with
      | none => rw [List.filterMap_cons_none hf, ih, Option.bind_none]
      | some b =>
          rw [List.filterMap_cons_some hf, List.find?_cons, Option.bind_some]
          cases p b with
          | true => rfl
          | false => exact ih

namespace Event

lemma contains_nodes (e : Event) (n : Nat) :
    e.nodes.contains n = e.sites.any fun y => y.statement.tags.node == some n := by
  rw [nodes, Body.walk_eq_map_sites, List.filterMap_map, Bool.eq_iff_iff, List.contains_iff_mem,
    List.mem_filterMap, List.any_eq_true]
  simp only [Function.comp_apply, beq_iff_eq]
  rfl

/-- Jumps to nodes fail with the first jump to no statement. -/
lemma fault_labelNodes (e : Event) : e.labelNodes.fault = e.sites.findSome? e.nodeFault? := by
  have hmissing : e.labelNodes.fault = e.missingNode?.map .unresolvedNode := by
    rw [labelNodes]
    cases e.missingNode? with
    | some n => rfl
    | none =>
        by_cases hnil : e.jumpNodes.isEmpty = true
        · rw [if_pos hnil]
          rfl
        · simp only [if_neg hnil]
          rfl
  rw [hmissing, missingNode?, jumpNodes, map_find?_filterMap, Body.walk_eq_map_sites,
    List.findSome?_map]
  congr 1
  funext x
  simp only [Function.comp_apply, nodeFault?, contains_nodes]
  congr 1
  funext n
  cases e.sites.any fun y => y.statement.tags.node == some n <;> rfl

end Event

/-- The check of one jump, by counts. -/
lemma Statement.ownSkipFault?_eq (x : Site) :
    x.statement.ownSkipFault? x.behind = x.skipFault? := by
  rw [ownSkipFault?, Site.skipFault?]
  congr 1
  funext commands
  obtain ⟨hfew, henough⟩ := Body.distance_eq commands x.behind
  by_cases h : Body.commandsAhead x.behind < commands
  · rw [hfew h, if_pos h]
  · obtain ⟨passed, hd⟩ := henough (Nat.not_lt.mp h)
    rw [hd, if_neg h]

mutual

/-- The check of a statement and those nested in it. -/
lemma Statement.skipFault?_eq_findSome? (index : Nat) (rest : Body) :
    ∀ s : Statement, s.innerSkipFault?.or (s.ownSkipFault? rest) =
      (s.sites index rest).findSome? Site.skipFault?
  | .simple tags a => by
      have hown := Statement.ownSkipFault?_eq ⟨.here index, .simple tags a, rest⟩
      rw [Statement.sites, List.findSome?_singleton, ← hown]
      rfl
  | .loop tags code body => by
      have hown := Statement.ownSkipFault?_eq ⟨.here index, .loop tags code body, rest⟩
      rw [Statement.sites, List.findSome?_append, List.findSome?_singleton, ← hown,
        List.findSome?_map, Statement.innerSkipFault?,
        Body.skipFault?_eq_findSome?_sitesFrom 0 body]
      rfl
  | .choice tags c yes no => by
      have hown := Statement.ownSkipFault?_eq ⟨.here index, .choice tags c yes no, rest⟩
      rw [Statement.sites, List.findSome?_append, List.findSome?_append, List.findSome?_singleton,
        ← hown, List.findSome?_map, List.findSome?_map, Statement.innerSkipFault?,
        Body.skipFault?_eq_findSome?_sitesFrom 0 yes, Body.skipFault?_eq_findSome?_sitesFrom 0 no]
      rfl

/-- The check of statements meets the first fault, from whatever index on. -/
lemma Body.skipFault?_eq_findSome?_sitesFrom (index : Nat) : ∀ body : List Statement,
    Body.skipFault? body = (Body.sitesFrom index body).findSome? Site.skipFault?
  | [] => rfl
  | s :: rest => by
      rw [Body.skipFault?, Body.sitesFrom, List.findSome?_append,
        Statement.skipFault?_eq_findSome? index rest s,
        Body.skipFault?_eq_findSome?_sitesFrom (index + 1) rest]

end

/-! ### The faults of an event -/

namespace Event

variable (e : Event)

/-- Jumps over commands fail with the first one that is past the first block or the end of its body:
behind the check there is no fault. -/
lemma fault_labelSkips : e.labelSkips.fault = e.sites.findSome? Site.skipFault? := by
  rw [sites, Body.sites, ← Body.skipFault?_eq_findSome?_sitesFrom 0 e.body]
  cases h : Body.skipFault? e.body with
  | some fault => rw [labelSkips, h]
  | none => exact (settled_labelSkips h).1

lemma event_labelNodes_of_fault (h : e.labelNodes.fault ≠ none) : e.labelNodes.event = e := by
  rw [labelNodes] at h ⊢
  cases hm : e.missingNode? with
  | some n => rfl
  | none =>
      rw [hm] at h
      by_cases hnil : e.jumpNodes.isEmpty = true
      · simp only [if_pos hnil] at h
        exact absurd rfl h
      · simp only [if_neg hnil] at h
        exact absurd rfl h

lemma event_labelSkips_of_fault (h : e.labelSkips.fault ≠ none) : e.labelSkips.event = e := by
  cases hskip : Body.skipFault? e.body with
  | some fault => rw [labelSkips, hskip]
  | none => exact absurd (settled_labelSkips hskip).1 h

/-- A first fault is missing exactly if there is none at all. -/
lemma findSome?_sites_ne_none_iff (fault? : Site → Option Fault) :
    e.sites.findSome? fault? ≠ none ↔
      ∃ q s, e.get? q = some s ∧ fault? ⟨q, s, Body.behind e.body q⟩ ≠ none := by
  rw [Ne, List.findSome?_eq_none_iff]
  push Not
  constructor
  · rintro ⟨x, hx, hfault⟩
    obtain ⟨hget, hbehind⟩ := Body.mem_sites_iff.mp hx
    exact ⟨x.position, x.statement, hget, by rw [hbehind]; exact hfault⟩
  · rintro ⟨q, s, hs, hfault⟩
    exact ⟨_, Body.exists_site hs, hfault⟩

/-- What the faults of an event say about its jumps, and what they leave of it. -/
structure AllOrNothing : Prop where
  /-- The fault of jumps to nodes is the first one in the order of the visit. -/
  nodes : e.labelNodes.fault = e.sites.findSome? e.nodeFault?
  /-- Jumps to nodes are at fault exactly if one of them goes to a node by which no statement is
  known. -/
  nodes_fail : e.labelNodes.fault ≠ none ↔ ∃ q s n, e.get? q = some s ∧
    s.target? = some (.node n) ∧ ∀ p t, e.get? p = some t → t.tags.node ≠ some n
  /-- A fault of jumps to nodes leaves the event as it was. -/
  nodes_keep : e.labelNodes.fault ≠ none → e.labelNodes.event = e
  /-- The fault of jumps over commands is the first one in the order of the visit. -/
  skips : e.labelSkips.fault = e.sites.findSome? Site.skipFault?
  /-- Jumps over commands are at fault exactly if fewer commands stand behind one of them than it
  jumps over. -/
  skips_fail : e.labelSkips.fault ≠ none ↔ ∃ q s commands, e.get? q = some s ∧
    s.target? = some (.skip commands) ∧ Body.commandsAhead (Body.behind e.body q) < commands
  /-- A fault of jumps over commands leaves the event as it was. -/
  skips_keep : e.labelSkips.fault ≠ none → e.labelSkips.event = e
  /-- Both steps fail if one of them does, with the fault of the first one that does. -/
  both : e.resolveJumps.fault = e.labelNodes.fault.or e.labelNodes.event.labelSkips.fault
  /-- With a missing node, both steps leave the event as it was. -/
  missing_node : ∀ n, e.resolveJumps.fault = some (.unresolvedNode n) → e.resolveJumps.event = e
  /-- With any other fault, both steps leave what the first one has made of the event. -/
  other_fault : ∀ fault, e.resolveJumps.fault = some fault → (∀ n, fault ≠ .unresolvedNode n) →
    e.labelNodes.fault = none ∧ e.resolveJumps.event = e.labelNodes.event

/-- The faults of jumps to nodes are missing nodes. -/
lemma exists_unresolvedNode {fault : Fault} (h : e.labelNodes.fault = some fault) :
    ∃ n, fault = .unresolvedNode n := by
  rw [fault_labelNodes] at h
  obtain ⟨x, -, hx⟩ := List.exists_of_findSome?_eq_some h
  obtain ⟨n, -, hn⟩ := Option.bind_eq_some_iff.mp hx
  split at hn
  · cases hn
  · exact ⟨n, (Option.some.inj hn).symm⟩

/-- The faults of jumps over commands are not missing nodes. -/
lemma ne_unresolvedNode {fault : Fault} (h : e.labelSkips.fault = some fault) (n : Nat) :
    fault ≠ .unresolvedNode n := by
  rw [fault_labelSkips] at h
  obtain ⟨x, -, hx⟩ := List.exists_of_findSome?_eq_some h
  obtain ⟨commands, -, hc⟩ := Option.bind_eq_some_iff.mp hx
  split at hc
  · rintro rfl
    cases Option.some.inj hc
  · cases hc

lemma resolveJumps_of_fault (h : e.labelNodes.fault ≠ none) : e.resolveJumps = e.labelNodes := by
  rw [resolveJumps]
  cases hfault : e.labelNodes.fault with
  | none => exact absurd hfault h
  | some fault => rfl

lemma resolveJumps_of_none (h : e.labelNodes.fault = none) :
    e.resolveJumps = e.labelNodes.event.labelSkips := by
  rw [resolveJumps]
  simp only [h]

/-- **Jumps are resolved all or not at all**, step by step, and a fault is that of the first jump
that has one. -/
theorem allOrNothing : e.AllOrNothing where
  nodes := e.fault_labelNodes
  nodes_fail := by
    rw [fault_labelNodes, findSome?_sites_ne_none_iff]
    simp only [nodeFault?_ne_none_iff, exists_and_left]
  nodes_keep := e.event_labelNodes_of_fault
  skips := e.fault_labelSkips
  skips_fail := by
    rw [fault_labelSkips, findSome?_sites_ne_none_iff]
    simp only [Site.skipFault?_ne_none_iff, exists_and_left]
  skips_keep := e.event_labelSkips_of_fault
  both := by
    cases hfault : e.labelNodes.fault with
    | none => rw [resolveJumps_of_none e hfault, Option.none_or]
    | some fault =>
        rw [resolveJumps_of_fault e (by rw [hfault]; exact Option.some_ne_none _), hfault,
          Option.some_or]
  missing_node n h := by
    by_cases hfault : e.labelNodes.fault = none
    · rw [resolveJumps_of_none e hfault] at h
      exact absurd rfl (ne_unresolvedNode _ h n)
    · rw [resolveJumps_of_fault e hfault]
      exact e.event_labelNodes_of_fault hfault
  other_fault fault h hother := by
    by_cases hfault : e.labelNodes.fault = none
    · rw [resolveJumps_of_none e hfault] at h ⊢
      exact ⟨hfault, event_labelSkips_of_fault _ (by rw [h]; exact Option.some_ne_none _)⟩
    · rw [resolveJumps_of_fault e hfault] at h
      obtain ⟨n, rfl⟩ := e.exists_unresolvedNode h
      exact absurd rfl (hother n)

end Event

end EventScript
