import EventScript.Proofs.Label.Fresh
import EventScript.Proofs.Statement.Shell
import Mathlib.Data.List.Perm.Basic

/-!
What resolving jumps may change, step by step.

A statement without a label may be given one, and a jump that has no label yet may be given one to
go to. All else about a statement stays as it is.

* `Statement.Change`: a number of such steps, with what they keep: the kind of a statement, its
  bodies and its node, the labels of one that has any, and the labels of jumps;
* `Grows`: the labels declared grow by new names, pairwise distinct and free before, and the names
  in use grow by the same ones. It holds of steps one after the other (`Grows.trans`) and side by
  side (`Grows.append`);
* `change_bearLabel`, `grows_bearLabel`: giving a statement a label is such a step.
-/

namespace EventScript

/-! ### Changes of a statement -/

/-- The steps from a statement `s` to another one: a label for a statement that has none, and a
label for a jump that goes to none. -/
inductive Statement.Change (s : Statement) : Statement → Prop
  | refl : Change s s
  | label {t : Statement} (name : Text) (h : Change s t) (hnone : t.tags.labels = []) :
      Change s (t.mapTags fun tags => { tags with labels := [name] })
  | target {t : Statement} (name : Text) (h : Change s t) (hnone : t.jumpLabel? = none) :
      Change s (t.jumpTo name)

namespace Statement

section JumpTo

variable (name : Text) (s : Statement)

@[simp] lemma tags_jumpTo : (s.jumpTo name).tags = s.tags := by
  cases s with
  | simple tags a => cases a <;> rfl
  | loop tags code body => rfl
  | choice tags c yes no => rfl

@[simp] lemma isCommand_jumpTo : (s.jumpTo name).isCommand = s.isCommand := by
  cases s with
  | simple tags a => cases a <;> rfl
  | loop tags code body => rfl
  | choice tags c yes no => rfl

@[simp] lemma declaredLabels_jumpTo : (s.jumpTo name).declaredLabels = s.declaredLabels := by
  cases s with
  | simple tags a => cases a <;> rfl
  | loop tags code body => rfl
  | choice tags c yes no => rfl

@[simp] lemma condition?_jumpTo : (s.jumpTo name).condition? = s.condition? := by
  cases s with
  | simple tags a => cases a <;> rfl
  | loop tags code body => rfl
  | choice tags c yes no => rfl

@[simp] lemma assignedVariable?_jumpTo :
    (s.jumpTo name).assignedVariable? = s.assignedVariable? := by
  cases s with
  | simple tags a => cases a <;> rfl
  | loop tags code body => rfl
  | choice tags c yes no => rfl

/-- A statement that jumps, jumps to the label afterwards. -/
@[simp] lemma target?_jumpTo : (s.jumpTo name).target? = s.target?.map fun _ => .label name := by
  cases s with
  | simple tags a => cases a <;> rfl
  | loop tags code body => rfl
  | choice tags c yes no => rfl

end JumpTo

section MapTags

variable (f : Tags → Tags) (s : Statement)

@[simp] lemma action?_mapTags : (s.mapTags f).action? = s.action? := by cases s <;> rfl

@[simp] lemma condition?_mapTags : (s.mapTags f).condition? = s.condition? := by cases s <;> rfl

@[simp] lemma assignedVariable?_mapTags :
    (s.mapTags f).assignedVariable? = s.assignedVariable? := by
  rw [assignedVariable?, action?_mapTags, ← assignedVariable?]

@[simp] lemma target?_mapTags : (s.mapTags f).target? = s.target? := by
  cases s with
  | simple tags a => cases a <;> rfl
  | loop tags code body => rfl
  | choice tags c yes no => rfl

@[simp] lemma isCommand_mapTags : (s.mapTags f).isCommand = s.isCommand := by
  cases s with
  | simple tags a => cases a <;> rfl
  | loop tags code body => rfl
  | choice tags c yes no => rfl

end MapTags

/-- A block is a statement with bodies. -/
lemma isBlock_eq (s : Statement) : s.isBlock = !s.bodies.isEmpty := by cases s <;> rfl

/-- The label a statement jumps to is read off its target. -/
lemma jumpLabel?_eq (s : Statement) : s.jumpLabel? = s.target?.bind Target.label? := by
  cases s with
  | simple tags a => cases a <;> rfl
  | loop tags code body => rfl
  | choice tags c yes no => rfl

/-! ### Targets -/

lemma jumpNode?_eq_some {s : Statement} {n : Nat} :
    s.jumpNode? = some n ↔ s.target? = some (.node n) := by
  rw [jumpNode?]
  split <;> simp_all

lemma jumpSkip?_eq_some {s : Statement} {k : Nat} :
    s.jumpSkip? = some k ↔ s.target? = some (.skip k) := by
  rw [jumpSkip?]
  split <;> simp_all

lemma jumpLabel?_eq_some {s : Statement} {name : Text} :
    s.jumpLabel? = some name ↔ s.target? = some (.label name) := by
  rw [jumpLabel?_eq, Option.bind_eq_some_iff]
  constructor
  · rintro ⟨t, ht, hname⟩
    cases t with
    | label l => rw [ht, ← Option.some.inj hname]
    | node n => cases hname
    | skip k => cases hname
  · exact fun h => ⟨_, h, rfl⟩

lemma jumpLabel?_of_jumpNode? {s : Statement} {n : Nat} (h : s.jumpNode? = some n) :
    s.jumpLabel? = none := by
  rw [jumpLabel?_eq, jumpNode?_eq_some.mp h]
  rfl

/-! ### What a change keeps -/

namespace Change

variable {s t u : Statement}

lemma trans (hst : s.Change t) (htu : t.Change u) : s.Change u := by
  induction htu with
  | refl => exact hst
  | label name _ hnone ih => exact label name ih hnone
  | target name _ hnone ih => exact target name ih hnone

lemma shell (h : s.Change t) : s.shell.Change t.shell := by
  induction h with
  | refl => exact refl
  | label name _ hnone ih =>
      rw [shell_mapTags]
      exact label name ih (by rwa [tags_shell])
  | target name _ hnone ih =>
      rw [shell_jumpTo]
      exact target name ih (by rwa [jumpLabel?_shell])

lemma bodies (h : s.Change t) : t.bodies = s.bodies := by
  induction h with
  | refl => rfl
  | label name _ _ ih => rw [bodies_mapTags, ih]
  | target name _ _ ih => rw [bodies_jumpTo, ih]

lemma isBlock (h : s.Change t) : t.isBlock = s.isBlock := by
  rw [isBlock_eq, isBlock_eq, h.bodies]

lemma isCommand (h : s.Change t) : t.isCommand = s.isCommand := by
  induction h with
  | refl => rfl
  | label name _ _ ih => rw [isCommand_mapTags, ih]
  | target name _ _ ih => rw [isCommand_jumpTo, ih]

lemma condition? (h : s.Change t) : t.condition? = s.condition? := by
  induction h with
  | refl => rfl
  | label name _ _ ih => rw [condition?_mapTags, ih]
  | target name _ _ ih => rw [condition?_jumpTo, ih]

lemma assignedVariable? (h : s.Change t) : t.assignedVariable? = s.assignedVariable? := by
  induction h with
  | refl => rfl
  | label name _ _ ih => rw [assignedVariable?_mapTags, ih]
  | target name _ _ ih => rw [assignedVariable?_jumpTo, ih]

/-- No statement starts or stops to jump. -/
lemma isSome_target? (h : s.Change t) : t.target?.isSome = s.target?.isSome := by
  induction h with
  | refl => rfl
  | label name _ _ ih => rw [target?_mapTags, ih]
  | target name _ _ ih => rw [target?_jumpTo, Option.isSome_map, ih]

/-- A first label stays the first one. -/
lemma head?_labels (h : s.Change t) {name : Text} (hs : s.tags.labels.head? = some name) :
    t.tags.labels.head? = some name := by
  induction h with
  | refl => exact hs
  | label _ _ hnone ih =>
      rw [hnone] at ih
      cases ih
  | target _ _ _ ih => rwa [tags_jumpTo]

/-- No label is taken away. -/
lemma mem_declaredLabels (h : s.Change t) {name : Text} (hs : name ∈ s.declaredLabels) :
    name ∈ t.declaredLabels := by
  induction h with
  | refl => exact hs
  | label _ _ hnone ih =>
      rw [declaredLabels, hnone, List.nil_append] at ih
      rw [declaredLabels, action?_mapTags]
      exact List.mem_append_right _ ih
  | target _ _ _ ih => rwa [declaredLabels_jumpTo]

/-- A jump to a label goes to that label ever after. -/
lemma jumpLabel? (h : s.Change t) {name : Text} (hs : s.jumpLabel? = some name) :
    t.jumpLabel? = some name := by
  induction h with
  | refl => exact hs
  | label _ _ _ ih => rwa [jumpLabel?_eq, target?_mapTags, ← jumpLabel?_eq]
  | target _ _ hnone ih =>
      rw [ih] at hnone
      cases hnone

end Change

end Statement

/-! ### New names -/

/-- Two lists and what comes behind each of them, in another order. -/
lemma perm_append_exchange {α : Type} (a b c d : List α) :
    ((a ++ b) ++ (c ++ d)).Perm ((a ++ c) ++ (b ++ d)) := by
  simp only [List.append_assoc]
  refine List.Perm.append_left a ?_
  simp only [← List.append_assoc]
  exact List.perm_append_comm.append_right d

/-- The labels declared grow from `old` to `now` by names that are pairwise distinct and were free,
and the names in use grow by the same ones. -/
def Grows (used used' old now : List Text) : Prop :=
  ∃ new : List Text, now.Perm (old ++ new) ∧ new.Nodup ∧ (∀ x ∈ new, Label.isFree used x = true) ∧
    ∀ x, x ∈ used' ↔ x ∈ used ∨ x ∈ new

namespace Grows

variable {used used₁ used₂ a b c a' b' : List Text}

lemma refl (used a : List Text) : Grows used used a a :=
  ⟨[], by simp, List.nodup_nil, by simp, by simp⟩

lemma mono (h : Grows used used₁ a b) {x : Text} (hx : x ∈ used) : x ∈ used₁ := by
  obtain ⟨new, -, -, -, hmem⟩ := h
  exact (hmem x).mpr (Or.inl hx)

/-- The growth of one part beside another, whose names come after. -/
lemma append (h₁ : Grows used used₁ a a') (h₂ : Grows used₁ used₂ b b') :
    Grows used used₂ (a ++ b) (a' ++ b') := by
  obtain ⟨new₁, hp₁, hn₁, hf₁, hm₁⟩ := id h₁
  obtain ⟨new₂, hp₂, hn₂, hf₂, hm₂⟩ := h₂
  have hdisjoint : ∀ x ∈ new₁, ∀ y ∈ new₂, x ≠ y := by
    rintro x hx y hy rfl
    exact Label.notMem_of_isFree (hf₂ x hy) ((hm₁ x).mpr (Or.inr hx))
  refine ⟨new₁ ++ new₂, ?_, ?_, ?_, ?_⟩
  · exact (hp₁.append hp₂).trans (perm_append_exchange a new₁ b new₂)
  · exact List.nodup_append.mpr ⟨hn₁, hn₂, hdisjoint⟩
  · intro x hx
    rcases List.mem_append.mp hx with h | h
    · exact hf₁ x h
    · exact Label.isFree_mono (fun y hy => h₁.mono hy) (hf₂ x h)
  · intro x
    rw [hm₂ x, hm₁ x, List.mem_append, or_assoc]

/-- The growth of the same labels in two steps. -/
lemma trans (h₁ : Grows used used₁ a b) (h₂ : Grows used₁ used₂ b c) : Grows used used₂ a c := by
  obtain ⟨new₁, hp₁, hn₁, hf₁, hm₁⟩ := id h₁
  obtain ⟨new₂, hp₂, hn₂, hf₂, hm₂⟩ := h₂
  have hsum : Grows used used₂ (a ++ []) ((a ++ new₁) ++ new₂) :=
    append ⟨new₁, List.Perm.refl _, hn₁, hf₁, hm₁⟩ ⟨new₂, List.Perm.refl _, hn₂, hf₂, hm₂⟩
  obtain ⟨new, hp, hn, hf, hm⟩ := hsum
  rw [List.append_nil] at hp
  exact ⟨new, (hp₂.trans (hp₁.append_right new₂)).trans hp, hn, hf, hm⟩

/-- Distinct labels that were all in use stay distinct. -/
lemma nodup (h : Grows used used₁ a b) (ha : a.Nodup) (hused : ∀ x ∈ a, x ∈ used) : b.Nodup := by
  obtain ⟨new, hp, hn, hf, -⟩ := h
  refine hp.nodup_iff.mpr (List.nodup_append.mpr ⟨ha, hn, ?_⟩)
  rintro x hx y hy rfl
  exact Label.notMem_of_isFree (hf x hy) (hused x hx)

/-- Labels that were in use are, and the new ones are as well. -/
lemma subset (h : Grows used used₁ a b) (hused : ∀ x ∈ a, x ∈ used) : ∀ x ∈ b, x ∈ used₁ := by
  obtain ⟨new, hp, -, -, hm⟩ := h
  intro x hx
  refine (hm x).mpr ?_
  rcases List.mem_append.mp (hp.mem_iff.mp hx) with hxa | hxn
  · exact Or.inl (hused x hxa)
  · exact Or.inr hxn

/-- A name that was in use already is declared afterwards only if it was before. -/
lemma mem_of_mem (h : Grows used used₁ a b) {x : Text} (hx : x ∈ b) (hused : x ∈ used) : x ∈ a := by
  obtain ⟨new, hp, -, hf, -⟩ := h
  rcases List.mem_append.mp (hp.mem_iff.mp hx) with hxa | hxn
  · exact hxa
  · exact absurd hused (Label.notMem_of_isFree (hf x hxn))

end Grows

/-! ### A label for a statement -/

namespace Statement

variable (fallback : Text) (s : Statement) (used : List Text)

lemma change_bearLabel : s.Change (s.bearLabel fallback used).1 := by
  rw [bearLabel]
  split
  · exact .refl
  · next hnone => exact .label _ .refl hnone

/-- Whether a statement has a label already, its shell tells. -/
lemma bearLabel_shell :
    s.shell.bearLabel fallback used =
      ((s.bearLabel fallback used).1.shell, (s.bearLabel fallback used).2) := by
  rw [bearLabel, bearLabel, tags_shell]
  split
  · rfl
  · rw [shell_mapTags]

/-- The name is the first label of the statement afterwards. -/
lemma head?_labels_bearLabel :
    (s.bearLabel fallback used).1.tags.labels.head? = some (s.bearLabel fallback used).2.1 := by
  rw [bearLabel]
  split
  · next hlabels => rw [hlabels, List.head?_cons]
  · rw [tags_mapTags, List.head?_cons]

@[simp] lemma target?_bearLabel : (s.bearLabel fallback used).1.target? = s.target? := by
  rw [bearLabel]
  split
  · rfl
  · exact target?_mapTags _ s

lemma grows_bearLabel :
    Grows used (s.bearLabel fallback used).2.2 s.declaredLabels
      (s.bearLabel fallback used).1.declaredLabels := by
  rw [bearLabel]
  split
  · exact Grows.refl used _
  · next hnone =>
      refine ⟨[Label.fresh used (s.tags.labelHint.getD fallback)], ?_, List.nodup_singleton _, ?_,
        ?_⟩
      · rw [declaredLabels, declaredLabels, tags_mapTags, action?_mapTags, hnone]
        exact List.perm_append_comm
      · intro x hx
        rw [List.mem_singleton.mp hx]
        exact Label.isFree_fresh used _
      · intro x
        rw [List.mem_cons, List.mem_singleton, or_comm]

end Statement

end EventScript
