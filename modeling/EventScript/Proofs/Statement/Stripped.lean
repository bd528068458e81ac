import EventScript.Reference
import EventScript.Layout.Statement
import EventScript.Proofs.Layout.Woven

/-!
Events without remarks.

Remarks say nothing about what a script does: without them conditions, statements and events have
the same texts, labels and references, and their layouts are those with the remarks taken out.

* `Condition.stripped`, `Statement.stripped`, `Body.stripped`, `Event.stripped`: what is left
  without remarks;
* `Event.referenceFault?_stripped`: a reference fails with remarks where it fails without them;
* `Statement.layout_stripped`: the layout of a statement without remarks;
* `Statement.isTidy_layout`: the layouts of statements are tidy;
* `Action.allRemarks_layout_perm`, `Statement.ownRemarks_perm`: the remarks of a condition are in
  the layout, and those of a statement there, in front of it or at the end of its line.
-/

namespace EventScript

/-! ### Conditions -/

namespace Condition

mutual

/-- The condition without remarks. -/
def stripped : Condition → Condition
  | atom a negated _ => atom a negated []
  | combine op parts negated _ => combine op (strippedAll parts) negated []

/-- The parts of a combination without remarks. -/
def strippedAll : List Condition → List Condition
  | [] => []
  | c :: cs => c.stripped :: strippedAll cs

end

lemma strippedAll_isEmpty (cs : List Condition) : (strippedAll cs).isEmpty = cs.isEmpty := by
  cases cs <;> rfl

@[simp] lemma isAlways_stripped (c : Condition) : c.stripped.isAlways = c.isAlways := by
  cases c <;> rfl

@[simp] lemma remarks_stripped (c : Condition) : c.stripped.remarks = [] := by
  cases c <;> rfl

lemma readName?_stripped (c : Condition) : c.stripped.readName? = c.readName? := by
  cases c with
  | atom a negated remarks => cases a <;> rfl
  | combine op parts negated remarks => rfl

mutual

@[simp] lemma text_stripped : ∀ c : Condition, c.stripped.text = c.text
  | atom a negated remarks => rfl
  | combine op parts negated remarks => by
      rw [stripped, text, text, texts_strippedAll parts]

lemma texts_strippedAll : ∀ cs : List Condition, texts (strippedAll cs) = texts cs
  | [] => rfl
  | c :: cs => by
      rw [strippedAll, texts, texts, text_stripped c, texts_strippedAll cs]

end

@[simp] lemma bareText_stripped (c : Condition) : c.stripped.bareText = c.bareText := by
  rw [bareText, bareText, text_stripped]

mutual

lemma walk_stripped : ∀ c : Condition,
    c.stripped.walk .forward = (c.walk .forward).map stripped
  | atom a negated remarks => rfl
  | combine op parts negated remarks => by
      rw [stripped, walk, walk, walkAll_strippedAll parts, List.map_append, List.map_singleton,
        stripped]

lemma walkAll_strippedAll : ∀ cs : List Condition,
    walkAll .forward (strippedAll cs) = (walkAll .forward cs).map stripped
  | [] => rfl
  | c :: cs => by
      rw [strippedAll, walkAll, walkAll, walk_stripped c, walkAll_strippedAll cs, List.map_append]

end

/-- Without remarks a condition reads the same variables. -/
lemma variableFault?_stripped (assigned : List Text) (c : Condition) :
    c.stripped.variableFault? assigned = c.variableFault? assigned := by
  rw [variableFault?, variableFault?, walk_stripped, List.findSome?_map]
  congr 1
  funext c
  rw [Function.comp_apply, readName?_stripped]

/-! ### The layout of a condition -/

mutual

lemma layout_stripped (bare : Bool) : ∀ c : Condition,
    c.stripped.layout bare = (c.layout bare).stripped
  | atom a negated remarks => rfl
  | combine op parts negated remarks => by
      have hbrackets : brackets bare negated (strippedAll parts) = brackets bare negated parts := by
        rw [brackets, brackets, strippedAll_isEmpty]
      rw [stripped, layout, layout, hbrackets, layouts_strippedAll parts]
      rfl

lemma layouts_strippedAll : ∀ cs : List Condition,
    layouts (strippedAll cs) = Layout.Tree.strippedAll (layouts cs)
  | [] => rfl
  | c :: cs => by
      rw [strippedAll, layouts, layouts, Layout.Tree.strippedAll, layout_stripped false c,
        layouts_strippedAll cs]

end

/-- A part of a combination is without parts, or ends with a parenthesis. -/
lemma isLeaf_or_isAnchored_layout (c : Condition) :
    ((c.layout false).isLeaf || (c.layout false).isAnchored) = true := by
  cases c with
  | atom a negated remarks => rfl
  | combine op parts negated remarks =>
      have hink : Layout.Tree.hasInk [')'] = true := by decide
      rw [layout, brackets, Bool.false_and, Bool.false_and, if_neg Bool.false_ne_true,
        Layout.Tree.isAnchored, hink, Bool.true_or, Bool.or_true]

mutual

lemma isTidy_layout : ∀ (bare : Bool) (c : Condition), (c.layout bare).isTidy = true
  | bare, atom a negated remarks => rfl
  | bare, combine op parts negated remarks => by
      rw [layout]
      refine Layout.Tree.isTidy_node (areTidy_layouts parts) ?_ _ _ _ _
      intro first second rest hparts
      rw [layouts_eq_map] at hparts
      obtain ⟨c, cs, rfl, rfl, -⟩ := List.map_eq_cons_iff.mp hparts
      exact isLeaf_or_isAnchored_layout c

lemma areTidy_layouts : ∀ cs : List Condition, Layout.Tree.areTidy (layouts cs) = true
  | [] => rfl
  | c :: cs => by
      rw [layouts, Layout.Tree.areTidy, isTidy_layout false c, areTidy_layouts cs, Bool.true_and]

end

mutual

/-- The layout of a condition holds its remarks, though in another order: on a layout a combination
comes before its parts. -/
lemma allRemarks_layout_perm : ∀ (bare : Bool) (c : Condition),
    (c.layout bare).allRemarks.Perm c.allRemarks
  | bare, atom a negated remarks => .refl _
  | bare, combine op parts negated remarks => by
      rw [allRemarks, layout, Layout.Tree.allRemarks, walk, List.flatMap_append,
        List.flatMap_singleton]
      exact List.perm_append_comm.trans ((partRemarks_layouts_perm parts).append_right remarks)

lemma partRemarks_layouts_perm : ∀ cs : List Condition,
    (Layout.Tree.partRemarks (layouts cs)).Perm ((walkAll .forward cs).flatMap remarks)
  | [] => .refl _
  | c :: cs => by
      rw [layouts, Layout.Tree.partRemarks, walkAll, List.flatMap_append]
      exact (allRemarks_layout_perm false c).append (partRemarks_layouts_perm cs)

end

/-- The sentinel has no parts. -/
lemma allRemarks_of_isAlways {c : Condition} (h : c.isAlways = true) :
    c.allRemarks = c.remarks := by
  cases c with
  | atom a negated remarks => exact List.append_nil remarks
  | combine op parts negated remarks => cases h

/-- The layout of a call with a condition, which is its text alone if the condition is the
sentinel. -/
def callLayout (text opening : Text) (c : Condition) : Layout.Tree :=
  if c.isAlways then .leaf text c.remarks else .behind opening (c.layout true) ");".toList

lemma callLayout_stripped (text opening : Text) (c : Condition) :
    c.stripped.callLayout text opening = (c.callLayout text opening).stripped := by
  rw [callLayout, callLayout, isAlways_stripped, remarks_stripped, layout_stripped]
  split
  · exact (Layout.Tree.stripped_leaf _ _).symm
  · exact (Layout.Tree.stripped_behind _ _ _).symm

lemma isTidy_callLayout (text opening : Text) (c : Condition) :
    (c.callLayout text opening).isTidy = true := by
  rw [callLayout]
  split
  · exact Layout.Tree.isTidy_leaf _ _
  · exact Layout.Tree.isTidy_behind (isTidy_layout true c) _ _

lemma allRemarks_callLayout_perm (text opening : Text) (c : Condition) :
    (c.callLayout text opening).allRemarks.Perm c.allRemarks := by
  rw [callLayout]
  split
  · next h => rw [Layout.Tree.allRemarks_leaf, allRemarks_of_isAlways h]
  · rw [Layout.Tree.allRemarks_behind]
    exact allRemarks_layout_perm true c

end Condition

/-! ### Statements -/

mutual

/-- The statement without remarks. -/
def Statement.stripped : Statement → Statement
  | .simple tags a => .simple { tags with remarks := [] } (a.mapCondition Condition.stripped)
  | .loop tags code body => .loop { tags with remarks := [] } code (Body.stripped body)
  | .choice tags c yes no =>
    .choice { tags with remarks := [] } c.stripped (Body.stripped yes) (Body.stripped no)

/-- The statements of a body without remarks. -/
def Body.stripped : List Statement → List Statement
  | [] => []
  | s :: rest => s.stripped :: Body.stripped rest

end

namespace Action

@[simp] lemma condition?_mapCondition (f : Condition → Condition) (a : Action) :
    (a.mapCondition f).condition? = a.condition?.map f := by
  cases a <;> rfl

lemma text_stripped (a : Action) : (a.mapCondition Condition.stripped).text = a.text := by
  rw [text.eq_def, text.eq_def]
  cases a with
  | finish ending c =>
      simp only [mapCondition, Condition.isAlways_stripped, Condition.bareText_stripped]
  | assign group variableName op c => simp only [mapCondition, Condition.bareText_stripped]
  | jump target c =>
      simp only [mapCondition, Condition.isAlways_stripped, Condition.bareText_stripped]
  | wait c isSpecial => simp only [mapCondition, Condition.bareText_stripped]
  | _ => rfl

lemma layout_finish (ending : Ending) (c : Condition) : (finish ending c).layout =
    c.callLayout (finish ending c).text (ending.callName false ++ ['(']) := rfl

lemma layout_jump (target : Target) (c : Condition) : (jump target c).layout =
    c.callLayout (jump target c).text (target.callHead false ++ ", ".toList) := rfl

/-- The layout of an action without remarks. -/
lemma layout_stripped (a : Action) :
    (a.mapCondition Condition.stripped).layout = a.layout.stripped := by
  cases a with
  | finish ending c =>
      have htext := text_stripped (finish ending c)
      rw [mapCondition] at htext ⊢
      rw [layout_finish, layout_finish, htext, Condition.callLayout_stripped]
  | jump target c =>
      have htext := text_stripped (jump target c)
      rw [mapCondition] at htext ⊢
      rw [layout_jump, layout_jump, htext, Condition.callLayout_stripped]
  | assign group variableName op c =>
      rw [mapCondition, layout, layout, Condition.layout_stripped, Layout.Tree.stripped_between]
  | wait c isSpecial =>
      rw [mapCondition, layout, layout, Condition.layout_stripped, Layout.Tree.stripped_behind]
  | _ => rfl

lemma isTidy_layout (a : Action) : a.layout.isTidy = true := by
  have hbare (c : Condition) := Condition.isTidy_layout true c
  cases a with
  | finish ending c => exact Condition.isTidy_callLayout _ _ c
  | jump target c => exact Condition.isTidy_callLayout _ _ c
  | assign group variableName op c => exact Layout.Tree.isTidy_between (hbare c) _ _
  | wait c isSpecial => exact Layout.Tree.isTidy_behind (hbare c) _ _
  | _ => rfl

/-- The layout of an action holds the remarks of its condition. -/
lemma allRemarks_layout_perm (a : Action) :
    a.layout.allRemarks.Perm ((a.condition?.map Condition.allRemarks).getD []) := by
  cases a with
  | finish ending c => exact Condition.allRemarks_callLayout_perm _ _ c
  | jump target c => exact Condition.allRemarks_callLayout_perm _ _ c
  | assign group variableName op c =>
      rw [layout, condition?, Option.map_some, Option.getD_some, Layout.Tree.allRemarks_between]
      exact Condition.allRemarks_layout_perm true c
  | wait c isSpecial =>
      rw [layout, condition?, Option.map_some, Option.getD_some, Layout.Tree.allRemarks_behind]
      exact Condition.allRemarks_layout_perm true c
  | _ => exact .refl _

end Action

namespace Statement

section MapCondition

variable (f : Condition → Condition) (s : Statement)

@[simp] lemma tags_mapCondition : (s.mapCondition f).tags = s.tags := by cases s <;> rfl

@[simp] lemma bodies_mapCondition : (s.mapCondition f).bodies = s.bodies := by cases s <;> rfl

@[simp] lemma condition?_mapCondition : (s.mapCondition f).condition? = s.condition?.map f := by
  cases s with
  | simple tags a => exact Action.condition?_mapCondition f a
  | loop tags code body => rfl
  | choice tags c yes no => rfl

@[simp] lemma target?_mapCondition : (s.mapCondition f).target? = s.target? := by
  cases s with
  | simple tags a => cases a <;> rfl
  | loop tags code body => rfl
  | choice tags c yes no => rfl

@[simp] lemma declaredLabels_mapCondition :
    (s.mapCondition f).declaredLabels = s.declaredLabels := by
  cases s with
  | simple tags a => cases a <;> rfl
  | loop tags code body => rfl
  | choice tags c yes no => rfl

@[simp] lemma assignedVariable?_mapCondition :
    (s.mapCondition f).assignedVariable? = s.assignedVariable? := by
  cases s with
  | simple tags a => cases a <;> rfl
  | loop tags code body => rfl
  | choice tags c yes no => rfl

end MapCondition

@[simp] lemma tags_stripped (s : Statement) :
    s.stripped.tags = { s.tags with remarks := [] } := by
  cases s <;> rfl

@[simp] lemma isLabel_stripped (s : Statement) : s.stripped.isLabel = s.isLabel := by
  cases s with
  | simple tags a => cases a <;> rfl
  | _ => rfl

@[simp] lemma isChoice_stripped (s : Statement) : s.stripped.isChoice = s.isChoice := by
  cases s <;> rfl

lemma condition?_stripped (s : Statement) :
    s.stripped.condition? = s.condition?.map Condition.stripped := by
  cases s with
  | simple tags a => exact Action.condition?_mapCondition _ a
  | _ => rfl

lemma target?_stripped (s : Statement) : s.stripped.target? = s.target? := by
  cases s with
  | simple tags a => cases a <;> rfl
  | _ => rfl

lemma declaredLabels_stripped (s : Statement) : s.stripped.declaredLabels = s.declaredLabels := by
  cases s with
  | simple tags a => cases a <;> rfl
  | _ => rfl

lemma assignedVariable?_stripped (s : Statement) :
    s.stripped.assignedVariable? = s.assignedVariable? := by
  cases s with
  | simple tags a => cases a <;> rfl
  | _ => rfl

@[simp] lemma text_stripped (s : Statement) : s.stripped.text = s.text := by
  cases s with
  | simple tags a => exact Action.text_stripped a
  | loop tags code body => rfl
  | choice tags c yes no => rw [stripped, text, text, Condition.bareText_stripped]

lemma referenceFault?_stripped (declared assigned : List Text) (s : Statement) :
    s.stripped.referenceFault? declared assigned = s.referenceFault? declared assigned := by
  have hjump : s.stripped.jumpFault? declared = s.jumpFault? declared := by
    rw [jumpFault?, jumpFault?, target?_stripped, text_stripped]
  have hcondition : s.stripped.condition?.bind (Condition.variableFault? assigned) =
      s.condition?.bind (Condition.variableFault? assigned) := by
    rw [condition?_stripped]
    cases s.condition? with
    | none => rfl
    | some c => exact Condition.variableFault?_stripped assigned c
  rw [referenceFault?, referenceFault?, hjump, hcondition]

/-! ### The layout of a statement -/

lemma layout_stripped (s : Statement) : s.stripped.layout = s.layout.stripped := by
  cases s with
  | simple tags a => exact Action.layout_stripped a
  | loop tags code body => rfl
  | choice tags c yes no =>
      rw [stripped, layout, layout, Condition.layout_stripped, Layout.Tree.stripped_between]

lemma isTidy_layout (s : Statement) : s.layout.isTidy = true := by
  cases s with
  | simple tags a => exact Action.isTidy_layout a
  | loop tags code body => rfl
  | choice tags c yes no => exact Layout.Tree.isTidy_between (Condition.isTidy_layout true c) _ _

/-! ### The remarks of a statement -/

/-- **The remarks of a statement** are those in front of it or at the end of its line and those in
its layout. -/
theorem ownRemarks_perm (s : Statement) :
    s.ownRemarks.Perm (s.tags.remarks ++ s.layout.allRemarks) := by
  rw [ownRemarks]
  refine List.Perm.append_left _ (List.Perm.symm ?_)
  cases s with
  | simple tags a => exact Action.allRemarks_layout_perm a
  | loop tags code body => exact .refl _
  | choice tags c yes no =>
      rw [layout, Layout.Tree.allRemarks_between]
      exact Condition.allRemarks_layout_perm true c

lemma allRemarks_simple (tags : Tags) (a : Action) :
    (simple tags a).allRemarks = (simple tags a).ownRemarks := List.append_nil _

end Statement

lemma Body.allRemarks_eq_flatMap (body : Body) :
    Body.allRemarks body = (Body.walk body).flatMap Statement.ownRemarks := by
  rw [Body.walk_eq_flatMap, List.flatMap_assoc]
  rfl

namespace Statement

lemma allRemarks_loop (tags : Tags) (code : Text) (body : Body) :
    (loop tags code body).allRemarks =
      Body.allRemarks body ++ (loop tags code body).ownRemarks := by
  rw [allRemarks, walk, List.flatMap_append, List.flatMap_singleton, Body.allRemarks_eq_flatMap]

lemma allRemarks_choice (tags : Tags) (c : Condition) (yes no : Body) :
    (choice tags c yes no).allRemarks = Body.allRemarks yes ++ Body.allRemarks no ++
      (choice tags c yes no).ownRemarks := by
  rw [allRemarks, walk, List.flatMap_append, List.flatMap_append, List.flatMap_singleton,
    Body.allRemarks_eq_flatMap, Body.allRemarks_eq_flatMap]

end Statement

/-! ### Bodies and events -/

namespace Body

lemma stripped_isEmpty (body : Body) : (stripped body).isEmpty = body.isEmpty := by
  cases body <;> rfl

mutual

lemma walk_statement_stripped : ∀ s : Statement,
    s.stripped.walk = s.walk.map Statement.stripped
  | .simple tags a => rfl
  | .loop tags code body => by
      rw [Statement.stripped, Statement.walk, Statement.walk, walk_stripped body, List.map_append]
      rfl
  | .choice tags c yes no => by
      rw [Statement.stripped, Statement.walk, Statement.walk, walk_stripped yes, walk_stripped no,
        List.map_append, List.map_append]
      rfl

/-- The visit of a body without remarks. -/
lemma walk_stripped : ∀ body : List Statement,
    Body.walk (stripped body) = (Body.walk body).map Statement.stripped
  | [] => rfl
  | s :: rest => by
      rw [stripped, walk, walk, walk_statement_stripped s, walk_stripped rest, List.map_append]

end

end Body

namespace Event

/-- The event without remarks. -/
def stripped (e : Event) : Event :=
  { e with body := Body.stripped e.body, closingRemarks := [] }

@[simp] lemma id_stripped (e : Event) : e.stripped.id = e.id := rfl

lemma declaredLabels_stripped (e : Event) : e.stripped.declaredLabels = e.declaredLabels := by
  rw [declaredLabels, stripped, Body.walk_stripped, List.flatMap_map]
  simp only [Statement.declaredLabels_stripped]
  rfl

lemma assignedVariables_stripped (e : Event) :
    e.stripped.assignedVariables = e.assignedVariables := by
  rw [assignedVariables, stripped, Body.walk_stripped, List.filterMap_map]
  congr 1
  funext s
  exact Statement.assignedVariable?_stripped s

/-- **References do not depend on remarks.** -/
theorem referenceFault?_stripped (e : Event) : e.stripped.referenceFault? = e.referenceFault? := by
  rw [referenceFault?, referenceFault?, declaredLabels_stripped, assignedVariables_stripped,
    stripped, Body.walk_stripped, List.findSome?_map]
  congr 1
  funext s
  exact Statement.referenceFault?_stripped _ _ s

end Event

end EventScript
